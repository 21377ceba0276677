/-
# Every list of tokens splits in one way

Reading tokens from the left, one always knows in which place of the
grammar one is: a `Reading` is the part of a block read so far, and one more
token makes it a longer part, a whole block, or shows that the block has no
name. `Reading.cut` takes the first block off a list of tokens this way.
It loses no token (`tokens_run`), and it finds again every block, unclosed
block or nameless start from the tokens that these spell out (`cut_block`,
`cut_unclosed`, `cut_nameless`). So a list of tokens splits into good blocks
and an ending in one way (`exists_split`, `split_unique`).

Key definitions: `Grammar.Reading`, `Grammar.Reading.step`, `Grammar.cut`,
`Grammar.Ending`.
Key theorems: `Grammar.tokens_run`, `Grammar.cut_block`,
`Grammar.exists_split`, `Grammar.split_unique`.
-/
import TagTables.Proofs.Grammar

namespace TagTables
namespace Grammar

/-- The part of a block that has been read. -/
inductive Reading where
  /-- Before the delimiter. -/
  | naming (seen : List Plain)
  /-- Behind it. -/
  | inside (block : Unclosed)

def Reading.tokens : Reading → List Token
  | naming seen => seen.map (·.val)
  | inside block => block.tokens

/-- What one more token makes of a reading. -/
inductive Move where
  | more (reading : Reading)
  | block (block : Block)
  | nameless (mark : HeadMark)

/-- The title that the tokens before a delimiter make, if there are any: the last is the name. -/
def Title.ofSeen? : List Plain → Option Title
  | [] => none
  | t :: rest => some ⟨(t :: rest).dropLast, (t :: rest).getLast (List.cons_ne_nil t rest)⟩

/-- An entry with some of its values: complete if these are all. -/
def Unclosed.entry (head : Head) (items : List (Item head.fields.length)) (tag : Tag) (got : List Token)
    (h : got.length ≤ head.fields.length) : Unclosed :=
  if full : got.length = head.fields.length then .tags head (items ++ [⟨tag, got, full⟩])
  else .values head items tag got (Nat.lt_of_le_of_ne h full)

namespace Reading

/-- Takes one token. -/
def step : Reading → Token → Move
  | naming seen, t =>
    if ho : t.Spells .opening then
      match Title.ofSeen? seen with
      | none => .nameless ⟨t, .inl ho⟩
      | some title => .more (.inside (.tags ⟨title, none, ⟨t, ho⟩⟩ []))
    else if hb : t.Spells .bar then
      match Title.ofSeen? seen with
      | none => .nameless ⟨t, .inr hb⟩
      | some title => .more (.inside (.fields title ⟨⟨t, hb⟩, []⟩))
    else .more (.naming (seen ++ [⟨t, ho, hb⟩]))
  | inside (.fields title list), t =>
    if ho : t.Spells .opening then .more (.inside (.tags ⟨title, some list, ⟨t, ho⟩⟩ []))
    else .more (.inside (.fields title ⟨list.bar, list.fields ++ [⟨t, ho⟩]⟩))
  | inside (.tags head items), t =>
    if hc : t.Spells .closing then .block ⟨head, items, ⟨t, hc⟩⟩
    else .more (.inside (.entry head items ⟨t, hc⟩ [] (Nat.zero_le _)))
  | inside (.values head items tag got short), t =>
    .more (.inside (.entry head items tag (got ++ [t]) (by rw [List.length_append]; exact short)))

end Reading

/-- What becomes of a list of tokens: it runs out, or the first block ends and some tokens are
left, or a delimiter comes before any name. -/
inductive Cut where
  | ended (reading : Reading)
  | block (block : Block) (rest : List Token)
  | nameless (mark : HeadMark) (rest : List Token)

def Cut.tokens : Cut → List Token
  | ended r => r.tokens
  | block b rest => b.tokens ++ rest
  | nameless mark rest => mark.val :: rest

/-- Reads on until the block ends. -/
def Reading.run : Reading → List Token → Cut
  | r, [] => .ended r
  | r, t :: ts =>
    match r.step t with
    | .more r => r.run ts
    | .block b => .block b ts
    | .nameless mark => .nameless mark ts

/-- Takes the first block off a list of tokens. -/
def cut (ts : List Token) : Cut := (Reading.naming []).run ts

/-! ### No token is lost -/

theorem Title.ofSeen?_eq_none_iff {seen : List Plain} : Title.ofSeen? seen = none ↔ seen = [] := by
  cases seen <;> simp [ofSeen?]

theorem Title.ofSeen?_tokens {seen : List Plain} {title : Title} (h : Title.ofSeen? seen = some title) :
    title.tokens = seen.map (·.val) := by
  cases seen with
  | nil => cases h
  | cons t rest =>
    obtain rfl := Option.some.inj h
    simp only [tokens]
    rw [← List.map_singleton, ← List.map_append, List.dropLast_concat_getLast]

theorem Title.ofSeen?_concat (title : Title) :
    Title.ofSeen? (title.dropped ++ [title.name]) = some title := by
  obtain ⟨dropped, name⟩ := title
  cases dropped with
  | nil => rfl
  | cons t rest =>
    simp only [List.cons_append, ofSeen?, Option.some.injEq, Title.mk.injEq]
    exact ⟨(t :: rest).dropLast_concat, (t :: rest).getLast_concat⟩

theorem Unclosed.tokens_entry (head : Head) (items : List (Item head.fields.length)) (tag : Tag)
    (got : List Token) (h : got.length ≤ head.fields.length) :
    (Unclosed.entry head items tag got h).tokens =
      head.tokens ++ (items.flatMap Item.tokens ++ tag.val :: got) := by
  unfold entry
  split
  · simp [tokens, Item.tokens]
  · rfl

/-- The tokens of a move. -/
def Move.tokens : Move → List Token
  | more r => r.tokens
  | block b => b.tokens
  | nameless mark => [mark.val]

theorem Reading.tokens_step (r : Reading) (t : Token) : (r.step t).tokens = r.tokens ++ [t] := by
  rcases r with seen | ⟨title, list⟩ | ⟨head, items⟩ | ⟨head, items, tag, got, short⟩
  · rw [step]
    cases htitle : Title.ofSeen? seen with
    | none =>
      obtain rfl := Title.ofSeen?_eq_none_iff.mp htitle
      split
      · rfl
      · split <;> rfl
    | some title =>
      have hseen := Title.ofSeen?_tokens htitle
      split
      · simp [Move.tokens, tokens, Unclosed.tokens, Head.tokens, hseen]
      · split
        · simp [Move.tokens, tokens, Unclosed.tokens, FieldList.tokens, hseen]
        · simp [Move.tokens, tokens]
  · rw [step]
    split
    · simp [Move.tokens, tokens, Unclosed.tokens, Head.tokens]
    · simp [Move.tokens, tokens, Unclosed.tokens, FieldList.tokens]
  · rw [step]
    split
    · simp [Move.tokens, tokens, Unclosed.tokens, Block.tokens]
    · rw [Move.tokens, tokens, Unclosed.tokens_entry]
      simp [tokens, Unclosed.tokens]
  · rw [step, Move.tokens, tokens, Unclosed.tokens_entry]
    simp [tokens, Unclosed.tokens]

theorem Reading.tokens_run : ∀ (ts : List Token) (r : Reading), (r.run ts).tokens = r.tokens ++ ts
  | [], r => by simp [run, Cut.tokens]
  | t :: ts, r => by
    have hstep := r.tokens_step t
    rw [run]
    cases hr : r.step t with
    | more r' =>
      rw [hr, Move.tokens] at hstep
      simp only
      rw [tokens_run ts r', hstep, List.append_assoc, List.singleton_append]
    | block b =>
      rw [hr, Move.tokens] at hstep
      simp only [Cut.tokens]
      rw [hstep, List.append_assoc, List.singleton_append]
    | nameless mark =>
      rw [hr, Move.tokens] at hstep
      simp only [Cut.tokens]
      rw [← List.singleton_append, hstep, List.append_assoc, List.singleton_append]

theorem tokens_cut (ts : List Token) : (cut ts).tokens = ts := Reading.tokens_run ts (.naming [])

/-! ### Every part is found again -/

namespace Reading

theorem run_cons_more {r r' : Reading} {t : Token} (h : r.step t = .more r') (ts : List Token) :
    r.run (t :: ts) = r'.run ts := by
  rw [run, h]

theorem run_plain (ts : List Token) : ∀ (more seen : List Plain),
    (naming seen).run (more.map (·.val) ++ ts) = (naming (seen ++ more)).run ts
  | [], seen => by simp
  | t :: more, seen => by
    have hstep : (naming seen).step t.val = .more (.naming (seen ++ [t])) := by
      rw [step, dif_neg t.property.1, dif_neg t.property.2]
    rw [List.map_cons, List.cons_append, run_cons_more hstep, run_plain ts more]
    simp

theorem run_title (title : Title) (ts : List Token) :
    (naming []).run (title.tokens ++ ts) = (naming (title.dropped ++ [title.name])).run ts := by
  have hplain : title.tokens = (title.dropped ++ [title.name]).map (·.val) := by simp [Title.tokens]
  rw [hplain, run_plain, List.nil_append]

theorem run_fields (title : Title) (bar : Mark .bar) (ts : List Token) : ∀ (more fields : List Field),
    (inside (.fields title ⟨bar, fields⟩)).run (more.map (·.val) ++ ts) =
      (inside (.fields title ⟨bar, fields ++ more⟩)).run ts
  | [], fields => by simp
  | t :: more, fields => by
    have hstep : (inside (.fields title ⟨bar, fields⟩)).step t.val =
        .more (.inside (.fields title ⟨bar, fields ++ [t]⟩)) := by
      rw [step, dif_neg t.property]
    rw [List.map_cons, List.cons_append, run_cons_more hstep, run_fields title bar ts more]
    simp

theorem run_fieldList (title : Title) (list : FieldList) (ts : List Token) :
    (naming []).run (title.tokens ++ (list.tokens ++ ts)) = (inside (.fields title list)).run ts := by
  have hbar : ¬ list.bar.val.Spells .opening := fun h => nomatch h.unique list.bar.property
  have hstep : (naming (title.dropped ++ [title.name])).step list.bar.val =
      .more (.inside (.fields title ⟨list.bar, []⟩)) := by
    rw [step, dif_neg hbar, dif_pos list.bar.property, Title.ofSeen?_concat]
  rw [run_title, FieldList.tokens, List.cons_append, run_cons_more hstep, run_fields, List.nil_append]

theorem run_head (head : Head) (ts : List Token) :
    (naming []).run (head.tokens ++ ts) = (inside (.tags head [])).run ts := by
  obtain ⟨title, _ | list, opening⟩ := head
  · have hstep : (naming (title.dropped ++ [title.name])).step opening.val =
        .more (.inside (.tags ⟨title, none, opening⟩ [])) := by
      rw [step, dif_pos opening.property, Title.ofSeen?_concat]
    simp only [Head.tokens, Option.elim_none, List.nil_append, List.append_assoc, List.singleton_append]
    rw [run_title, run_cons_more hstep]
  · have hstep : (inside (.fields title list)).step opening.val =
        .more (.inside (.tags ⟨title, some list, opening⟩ [])) := by
      rw [step, dif_pos opening.property]
    simp only [Head.tokens, Option.elim_some, List.append_assoc, List.singleton_append]
    rw [run_fieldList, run_cons_more hstep]

variable (head : Head)

theorem run_values (items : List (Item head.fields.length)) (tag : Tag) (ts : List Token) :
    ∀ (more got : List Token) (h : got.length ≤ head.fields.length)
      (h' : (got ++ more).length ≤ head.fields.length),
      (inside (.entry head items tag got h)).run (more ++ ts) =
        (inside (.entry head items tag (got ++ more) h')).run ts
  | [], got, _, _ => by simp
  | t :: more, got, h, h' => by
    have hlt : got.length < head.fields.length := by
      rw [List.length_append, List.length_cons] at h'
      omega
    have hopen : Unclosed.entry head items tag got h = .values head items tag got hlt := by
      rw [Unclosed.entry, dif_neg (Nat.ne_of_lt hlt)]
    have hassoc : got ++ t :: more = got ++ [t] ++ more := by simp
    have hstep : (inside (.values head items tag got hlt)).step t =
        .more (.inside (.entry head items tag (got ++ [t]) (by rw [List.length_append]; exact hlt))) := by
      rw [step]
    rw [hopen, List.cons_append, run_cons_more hstep,
      run_values items tag ts more (got ++ [t]) _ (by rw [← hassoc]; exact h')]
    simp only [hassoc]

theorem run_tag (items : List (Item head.fields.length)) (tag : Tag) (got ts : List Token)
    (h : got.length ≤ head.fields.length) :
    (inside (.tags head items)).run (tag.val :: got ++ ts) = (inside (.entry head items tag got h)).run ts := by
  have hstep : (inside (.tags head items)).step tag.val =
      .more (.inside (.entry head items tag [] (Nat.zero_le _))) := by
    rw [step, dif_neg tag.property]
  rw [List.cons_append, run_cons_more hstep, run_values head items tag ts got [] _ h]
  rfl

theorem run_items (ts : List Token) : ∀ (more items : List (Item head.fields.length)),
    (inside (.tags head items)).run (more.flatMap Item.tokens ++ ts) =
      (inside (.tags head (items ++ more))).run ts
  | [], items => by simp
  | i :: more, items => by
    have hwhole : Unclosed.entry head items i.tag i.values (Nat.le_of_eq i.full) =
        .tags head (items ++ [i]) := by
      rw [Unclosed.entry, dif_pos i.full]
    rw [List.flatMap_cons, List.append_assoc, Item.tokens,
      run_tag head items i.tag i.values _ (Nat.le_of_eq i.full), hwhole, run_items ts more]
    simp

end Reading

theorem cut_block (b : Block) (rest : List Token) : cut (b.tokens ++ rest) = .block b rest := by
  obtain ⟨head, items, closing⟩ := b
  simp only [cut, Block.tokens, List.append_assoc, List.singleton_append]
  rw [Reading.run_head, Reading.run_items, Reading.run, Reading.step, dif_pos closing.property,
    List.nil_append]

theorem cut_unclosed (b : Unclosed) : cut b.tokens = .ended (.inside b) := by
  rcases b with ⟨title, list⟩ | ⟨head, items⟩ | ⟨head, items, tag, got, short⟩
  · have h := Reading.run_fieldList title list []
    simpa only [cut, Unclosed.tokens, List.append_nil, Reading.run] using h
  · rw [cut, Unclosed.tokens, Reading.run_head]
    have h := Reading.run_items head [] items []
    simpa only [List.append_nil, List.nil_append, Reading.run] using h
  · rw [cut, Unclosed.tokens, Reading.run_head, Reading.run_items, List.nil_append]
    have h := Reading.run_tag head items tag got [] (Nat.le_of_lt short)
    simpa only [List.append_nil, Reading.run, Unclosed.entry, dif_neg (Nat.ne_of_lt short)] using h

theorem cut_strays (strays : List Plain) : cut (strays.map (·.val)) = .ended (.naming strays) := by
  have h := Reading.run_plain [] strays []
  simpa only [cut, List.append_nil, List.nil_append, Reading.run] using h

theorem cut_nameless (mark : HeadMark) (rest : List Token) :
    cut (mark.val :: rest) = .nameless mark rest := by
  obtain ⟨t, ho | hb⟩ := mark
  · rw [cut, Reading.run, Reading.step, dif_pos ho]
    rfl
  · have ho : ¬ t.Spells .opening := fun ho => nomatch ho.unique hb
    rw [cut, Reading.run, Reading.step, dif_neg ho, dif_pos hb]
    rfl

/-! ### Splits -/

/-- What stands behind the good blocks. -/
inductive Ending where
  | strays (tokens : List Plain)
  | offence (offence : Offence)

def Ending.tokens : Ending → List Token
  | strays l => l.map (·.val)
  | offence o => o.tokens

/-- A list of tokens is these blocks, all of them good, and this ending. -/
structure Splits (ts : List Token) (blocks : List Block) (ending : Ending) : Prop where
  distinct : ∀ b ∈ blocks, b.Distinct
  tokens : ts = blocks.flatMap Block.tokens ++ ending.tokens

theorem Block.tokens_ne_nil (b : Block) : b.tokens ≠ [] := by simp [tokens]

theorem Unclosed.tokens_ne_nil (b : Unclosed) : b.tokens ≠ [] := by
  cases b <;> simp [tokens, Head.tokens, FieldList.tokens]

/-- Every list of tokens splits. -/
theorem exists_split (ts : List Token) : ∃ blocks ending, Splits ts blocks ending := by
  induction hn : ts.length using Nat.strongRecOn generalizing ts with
  | ind n ih =>
    have htokens := tokens_cut ts
    cases hcut : cut ts with
    | ended r =>
      rw [hcut] at htokens
      cases r with
      | naming seen => exact ⟨[], .strays seen, by simp, htokens.symm⟩
      | inside b => exact ⟨[], .offence (.unclosed b), by simp, htokens.symm⟩
    | nameless mark rest =>
      rw [hcut] at htokens
      exact ⟨[], .offence (.nameless mark rest), by simp, htokens.symm⟩
    | block b rest =>
      rw [hcut] at htokens
      by_cases hdistinct : b.Distinct
      · -- the rest is shorter, so it splits
        have hlt : rest.length < n := by
          have := List.length_pos_iff.mpr b.tokens_ne_nil
          rw [← hn, ← htokens, Cut.tokens, List.length_append]
          omega
        obtain ⟨blocks, ending, hall, hrest⟩ := ih rest.length hlt rest rfl
        refine ⟨b :: blocks, ending, ?_, ?_⟩
        · intro b' hb'
          rcases List.mem_cons.mp hb' with rfl | hb'
          · exact hdistinct
          · exact hall b' hb'
        · rw [← htokens, Cut.tokens, List.flatMap_cons, List.append_assoc, ← hrest]
      · exact ⟨[], .offence (.repeated b hdistinct rest), by simp, htokens.symm⟩

/-- What cutting finds at an ending. -/
def Ending.cut : Ending → Cut
  | strays l => .ended (.naming l)
  | offence (.nameless mark rest) => .nameless mark rest
  | offence (.unclosed b) => .ended (.inside b)
  | offence (.repeated b _ rest) => .block b rest

theorem cut_ending (e : Ending) : Grammar.cut e.tokens = e.cut := by
  rcases e with l | ⟨mark, rest⟩ | b | ⟨b, _, rest⟩
  · exact cut_strays l
  · exact cut_nameless mark rest
  · exact cut_unclosed b
  · exact cut_block b rest

theorem Ending.cut_injective {e e' : Ending} (h : e.cut = e'.cut) : e = e' := by
  rcases e with l | ⟨mark, rest⟩ | b | ⟨b, hb, rest⟩ <;>
    rcases e' with l' | ⟨mark', rest'⟩ | b' | ⟨b', hb', rest'⟩ <;> simp_all [cut]

theorem Ending.cut_ne_block {e : Ending} {b : Block} {rest : List Token} (hb : b.Distinct) :
    e.cut ≠ .block b rest := by
  rcases e with l | ⟨mark, rest⟩ | b' | ⟨b', hb', rest⟩
  · simp [cut]
  · simp [cut]
  · simp [cut]
  · intro h
    simp only [cut, Cut.block.injEq] at h
    exact hb' (h.1 ▸ hb)

theorem Splits.cut_nil {ts : List Token} {e : Ending} (h : Splits ts [] e) : cut ts = e.cut := by
  rw [h.tokens]
  exact cut_ending e

theorem Splits.cut_cons {ts : List Token} {b : Block} {blocks : List Block} {e : Ending}
    (h : Splits ts (b :: blocks) e) : cut ts = .block b (blocks.flatMap Block.tokens ++ e.tokens) := by
  rw [h.tokens, List.flatMap_cons, List.append_assoc, cut_block]

theorem Splits.tail {ts : List Token} {b : Block} {blocks : List Block} {e : Ending}
    (h : Splits ts (b :: blocks) e) : Splits (blocks.flatMap Block.tokens ++ e.tokens) blocks e :=
  ⟨fun x hx => h.distinct x (List.mem_cons_of_mem b hx), rfl⟩

/-- A list of tokens splits in one way only. -/
theorem split_unique {e e' : Ending} : ∀ {blocks blocks' : List Block} {ts : List Token},
    Splits ts blocks e → Splits ts blocks' e' → blocks = blocks' ∧ e = e'
  | [], [], _, h, h' => ⟨rfl, Ending.cut_injective (h.cut_nil.symm.trans h'.cut_nil)⟩
  | [], b' :: _, _, h, h' =>
    absurd (h.cut_nil.symm.trans h'.cut_cons) (Ending.cut_ne_block (h'.distinct b' List.mem_cons_self))
  | b :: _, [], _, h, h' =>
    absurd (h'.cut_nil.symm.trans h.cut_cons) (Ending.cut_ne_block (h.distinct b List.mem_cons_self))
  | b :: blocks, b' :: blocks', _, h, h' => by
    have hcut := h.cut_cons.symm.trans h'.cut_cons
    rw [Cut.block.injEq] at hcut
    obtain ⟨rfl, hrest⟩ := hcut
    obtain ⟨rfl, rfl⟩ := split_unique h.tail (hrest ▸ h'.tail)
    exact ⟨rfl, rfl⟩

theorem File.splits (f : File) : Splits f.tokens f.blocks (.strays f.strays) := ⟨f.distinct, rfl⟩

theorem Rejection.splits (r : Rejection) : Splits r.tokens r.blocks (.offence r.offence) := ⟨r.distinct, rfl⟩

theorem File.tokens_injective : Function.Injective File.tokens := by
  intro f f' h
  obtain ⟨hblocks, hstrays⟩ := split_unique f.splits (h ▸ f'.splits)
  obtain ⟨blocks, _, strays⟩ := f
  obtain rfl : blocks = f'.blocks := hblocks
  obtain rfl : strays = f'.strays := Ending.strays.inj hstrays
  rfl

theorem Rejection.tokens_injective : Function.Injective Rejection.tokens := by
  intro r r' h
  obtain ⟨hblocks, hoffence⟩ := split_unique r.splits (h ▸ r'.splits)
  obtain ⟨blocks, _, offence⟩ := r
  obtain rfl : blocks = r'.blocks := hblocks
  obtain rfl : offence = r'.offence := Ending.offence.inj hoffence
  rfl

end Grammar
end TagTables
