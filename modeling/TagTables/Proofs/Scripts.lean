/-
# Drafts under any script

A draft can be used further after a failed write: it may be started and given
sets in any order and any number of times, and only then be finished. What it
comes to is told by the bytes that all calls have for its two sinks. A sink
that is full loses what comes later, so it holds the first bytes of all that it
was given, as if that had been one text (`Sink.given_append`). The declarations
are given the text of every call; the definitions only those of the calls
whose declarations fit. This is what one call keeps (`Behind.call`), and so a
whole script does. The count goes by what the calls answer alone
(`tally_script`).

Key definitions: `firstBytes`, `Sink.given`, `Draft.Call`, `Draft.script`,
`Draft.declared`, `Draft.Behind`.
Key theorems: `Sink.given_append`, `Sink.fitsIn_append`, `Draft.Behind.call`,
`Draft.behind_script`, `Draft.tally_script`, `script_effect`.
-/
import Mathlib
import TagTables.Proofs.Effects
import TagTables.Proofs.Sections

namespace TagTables

/-! ### Sinks that are given more than they can take -/

/-- The bytes are no more than the limit allows, if there is one. -/
def FitsIn (limit : Option Nat) (bytes : ByteArray) : Prop := ∀ l ∈ limit, bytes.size ≤ l

instance (limit : Option Nat) (bytes : ByteArray) : Decidable (FitsIn limit bytes) :=
  inferInstanceAs (Decidable (∀ l ∈ limit, bytes.size ≤ l))

/-- The first bytes, as many as the limit allows. -/
def firstBytes (limit : Option Nat) (bytes : ByteArray) : ByteArray :=
  bytes.extract 0 (limit.getD bytes.size)

theorem firstBytes_append (limit : Option Nat) (a b : ByteArray) :
    firstBytes limit (a ++ b) = firstBytes limit a ++ firstBytes (limit.map (· - a.size)) b := by
  cases limit with
  | none =>
    unfold firstBytes
    simp only [Option.map_none, Option.getD_none, ByteArray.extract_zero_size]
  | some l =>
    unfold firstBytes
    simp only [Option.map_some, Option.getD_some]
    rw [ByteArray.extract_append, Nat.zero_sub]

namespace Sink

/-- How many bytes the sink can still take, if that is bounded. An empty sink has the room of its limit. -/
def room (s : Sink) : Option Nat := s.limit.map (· - s.held.size)

/-- The sink behind all attempts to write these bytes, at once or in parts: it holds the first of them. -/
def given (s : Sink) (bytes : ByteArray) : Sink := s.extend (firstBytes s.room bytes)

variable (s : Sink) (a b bytes : ByteArray)

theorem takes_iff_fitsIn : s.Takes bytes ↔ FitsIn s.room bytes := by
  unfold Takes fits FitsIn room
  cases s.limit with
  | none => simp
  | some l => simp

theorem part_eq_firstBytes : s.part bytes = firstBytes s.room bytes := by
  unfold part fits firstBytes room
  cases s.limit with
  | none => rfl
  | some l =>
    simp only [Option.map_some, Option.getD_some]
    by_cases hl : bytes.size ≤ l - s.held.size
    · have hall : bytes.extract 0 (l - s.held.size) = bytes := by
        apply ByteArray.ext
        rw [ByteArray.data_extract]
        exact Array.extract_eq_self_of_le hl
      rw [min_eq_left hl, hall, ByteArray.extract_zero_size]
    · rw [min_eq_right (by omega)]

/-- Writing a whole text is giving it to the sink. -/
theorem writeAll_eq_given :
    s.writeAll bytes = (if FitsIn s.room bytes then .ok () else .error s.fullError, s.given bytes) := by
  by_cases h : s.Takes bytes
  · rw [if_pos ((s.takes_iff_fitsIn bytes).mp h), writeAll_of_takes h, given, ← part_eq_firstBytes, part,
      show s.fits bytes.size = bytes.size from h, ByteArray.extract_zero_size]
  · rw [if_neg (mt (s.takes_iff_fitsIn bytes).mpr h), writeAll_of_not_takes h, given, ← part_eq_firstBytes]

theorem room_given : (s.given a).room = s.room.map (· - a.size) := by
  unfold given extend firstBytes room
  cases s.limit with
  | none => rfl
  | some l =>
    simp only [Option.map_some, Option.getD_some, ByteArray.size_append, ByteArray.size_extract, Option.some.injEq]
    omega

theorem given_empty : s.given ByteArray.empty = s := by
  have hnothing : firstBytes s.room ByteArray.empty = ByteArray.empty := by
    apply ByteArray.ext
    rw [firstBytes, ByteArray.data_extract]
    exact Array.extract_empty
  rw [given, hnothing, extend, ByteArray.append_empty]

/-- A sink that is given one text and then another is given both. -/
theorem given_append : s.given (a ++ b) = (s.given a).given b := by
  rw [given, firstBytes_append, given, room_given, given]
  unfold extend
  rw [ByteArray.append_assoc]

theorem fitsIn_append (hb : 0 < b.size) : FitsIn (s.given a).room b ↔ FitsIn s.room (a ++ b) := by
  rw [room_given]
  unfold FitsIn
  rw [ByteArray.size_append]
  cases s.room with
  | none => simp
  | some l =>
    simp only [Option.map_some, Option.mem_def, Option.some.injEq, forall_eq']
    omega

theorem writeAll_given (hb : 0 < b.size) : (s.given a).writeAll b =
    (if FitsIn s.room (a ++ b) then .ok () else .error s.fullError, s.given (a ++ b)) := by
  rw [writeAll_eq_given, given_append, if_congr (s.fitsIn_append a b hb) rfl rfl]
  rfl

end Sink

/-! ### Scripts -/

namespace Draft

/-- What can be asked of a draft any number of times. -/
inductive Call where
  | start
  | add (set : TagSet)

/-- The text that a call has for a sink. -/
def Call.text (style : Emit.Style) : Side → Call → String
  | .declarations, start => style.declarationsHead
  | .definitions, start => style.definitionsHead
  | .declarations, add set => style.declarationsOf set
  | .definitions, add set => style.definitionsOf set

/-- All bytes that calls have for a sink. -/
def bytesOf (style : Emit.Style) (side : Side) (calls : List Call) : ByteArray :=
  (String.join (calls.map (Call.text style side))).toUTF8

/-- Carries out a call. -/
def call (d : Draft) : Call → Except SinkError Unit × Draft
  | .start => d.start
  | .add set => d.add set

/-- Carries out calls one by one, also behind one that fails. -/
def script (d : Draft) : List Call → List (Except SinkError Unit) × Draft
  | [] => ([], d)
  | c :: calls => ((d.call c).1 :: ((d.call c).2.script calls).1, ((d.call c).2.script calls).2)

/-- Those of the calls whose declarations fit into so much room, with the declarations of all calls
before them. -/
def declared (style : Emit.Style) (room : Option Nat) (calls : List Call) : List Call :=
  (calls.zipIdx.filter fun p => FitsIn room (bytesOf style .declarations (calls.take (p.2 + 1)))).map (·.1)

/-- The set that a call adds if it answers so. -/
def Call.counted? : Call × Except SinkError Unit → Option TagSet
  | (add set, .ok ()) => some set
  | _ => none

/-- The sets that calls add, by what they answer. -/
def addedSets (calls : List Call) (answers : List (Except SinkError Unit)) : List TagSet :=
  (calls.zip answers).filterMap Call.counted?

theorem bytesOf_concat (style : Emit.Style) (side : Side) (calls : List Call) (c : Call) :
    bytesOf style side (calls ++ [c]) = bytesOf style side calls ++ (c.text style side).toUTF8 := by
  unfold bytesOf
  simp [String.join_append, String.toByteArray_append]

theorem declared_concat (style : Emit.Style) (room : Option Nat) (calls : List Call) (c : Call) :
    declared style room (calls ++ [c]) = declared style room calls ++
      if FitsIn room (bytesOf style .declarations (calls ++ [c])) then [c] else [] := by
  have hbefore : calls.zipIdx.filter (fun p =>
        FitsIn room (bytesOf style .declarations ((calls ++ [c]).take (p.2 + 1)))) =
      calls.zipIdx.filter (fun p => FitsIn room (bytesOf style .declarations (calls.take (p.2 + 1)))) := by
    apply List.filter_congr
    intro p hp
    have hlt := List.snd_lt_of_mem_zipIdx hp
    rw [List.take_append_of_le_length (by omega)]
  have hlast : (calls ++ [c]).take (calls.length + 1) = calls ++ [c] := List.take_of_length_le (by simp)
  unfold declared
  rw [List.zipIdx_append, List.filter_append, hbefore, List.map_append, List.zipIdx_singleton, Nat.zero_add]
  by_cases h : FitsIn room (bytesOf style .declarations (calls ++ [c]))
  · rw [if_pos h, List.filter_cons_of_pos (by simpa [hlast] using h)]
    rfl
  · rw [if_neg h, List.filter_cons_of_neg (by simpa [hlast] using h)]
    rfl

theorem Call.text_pos (style : Emit.Style) (side : Side) (c : Call) : 0 < (c.text style side).toUTF8.size := by
  rw [String.toUTF8_eq_toByteArray, String.size_toByteArray]
  rcases c with _ | set <;> rcases side
  · obtain ⟨rest, hrest⟩ := style.declarationsHead_eq
    show 0 < style.declarationsHead.utf8ByteSize
    rw [hrest, String.utf8ByteSize_append]
    exact Nat.add_pos_left (by decide) _
  · obtain ⟨rest, hrest⟩ := style.definitionsHead_eq
    show 0 < style.definitionsHead.utf8ByteSize
    rw [hrest, String.utf8ByteSize_append]
    exact Nat.add_pos_left (by decide) _
  · show 0 < (style.declarationsOf set).utf8ByteSize
    rw [Emit.Style.declarationsOf_eq, String.utf8ByteSize_append]
    exact Nat.add_pos_right _ (by decide)
  · show 0 < (style.definitionsOf set).utf8ByteSize
    rw [Emit.Style.definitionsOf_eq, String.utf8ByteSize_append]
    exact Nat.add_pos_right _ (by decide)

theorem writeAll_text (s : Sink) (style : Emit.Style) (side : Side) (calls : List Call) (c : Call) :
    (s.given (bytesOf style side calls)).writeAll (c.text style side).toUTF8 =
      (if FitsIn s.room (bytesOf style side (calls ++ [c])) then .ok () else .error s.fullError,
        s.given (bytesOf style side (calls ++ [c]))) := by
  rw [Sink.writeAll_given _ _ _ (c.text_pos style side), ← bytesOf_concat]

/-! ### What a call keeps -/

/-- The draft stands behind these calls, made to the first one: the declarations were given the texts of
all of them, and the definitions those of the calls whose declarations fit. -/
structure Behind (first : Draft) (calls : List Call) (d : Draft) : Prop where
  style : d.style = first.style
  declarations : d.declarations = first.declarations.given (bytesOf first.style .declarations calls)
  definitions : d.definitions = first.definitions.given
    (bytesOf first.style .definitions (declared first.style first.declarations.room calls))

/-- The texts of these calls fit completely: the declarations of all of them, and the definitions of those
whose declarations fit. -/
def Fitted (first : Draft) (calls : List Call) : Prop :=
  FitsIn first.declarations.room (bytesOf first.style .declarations calls) ∧
    FitsIn first.definitions.room
      (bytesOf first.style .definitions (declared first.style first.declarations.room calls))

theorem call_eq (d : Draft) (c : Call) : ∃ tally,
    d.call c =
      ((d.writeBoth (c.text d.style .declarations) (c.text d.style .definitions)).1,
        { (d.writeBoth (c.text d.style .declarations) (c.text d.style .definitions)).2 with tally := tally }) := by
  cases c with
  | start => exact ⟨_, rfl⟩
  | add set =>
    show ∃ tally, d.add set =
      ((d.writeBoth (d.style.declarationsOf set) (d.style.definitionsOf set)).1,
        { (d.writeBoth (d.style.declarationsOf set) (d.style.definitionsOf set)).2 with tally := tally })
    unfold add
    rcases d.writeBoth (d.style.declarationsOf set) (d.style.definitionsOf set) with ⟨_ | _, d'⟩
    · exact ⟨_, rfl⟩
    · exact ⟨_, rfl⟩

/-- What one call keeps, and when it succeeds. -/
theorem Behind.call {first d : Draft} {calls : List Call} (h : first.Behind calls d) (c : Call) :
    first.Behind (calls ++ [c]) (d.call c).2 ∧ ((d.call c).1 = .ok () ↔ first.Fitted (calls ++ [c])) := by
  obtain ⟨tally, hcall⟩ := d.call_eq c
  have hdeclarations := writeAll_text first.declarations first.style .declarations calls c
  have hdeclared := declared_concat first.style first.declarations.room calls c
  rw [hcall, h.style]
  unfold writeBoth
  rw [h.declarations, hdeclarations]
  by_cases hfits : FitsIn first.declarations.room (bytesOf first.style .declarations (calls ++ [c]))
  · -- the definitions of this call are written too
    have hdefinitions := writeAll_text first.definitions first.style .definitions
      (declared first.style first.declarations.room calls) c
    rw [if_pos hfits] at hdeclared ⊢
    rw [← hdeclared, ← h.definitions] at hdefinitions
    refine ⟨⟨h.style, rfl, ?_⟩, ?_⟩
    · show (d.definitions.writeAll (c.text first.style .definitions).toUTF8).2 = _
      rw [hdefinitions]
    · show (d.definitions.writeAll (c.text first.style .definitions).toUTF8).1 = .ok () ↔ _
      rw [hdefinitions, Fitted]
      simp [hfits]
  · -- they are left out, as the declarations do not fit
    rw [if_neg hfits, List.append_nil] at hdeclared
    rw [if_neg hfits]
    refine ⟨⟨h.style, rfl, ?_⟩, ?_⟩
    · rw [hdeclared]
      exact h.definitions
    · simp [Fitted, hfits]

/-! ### Whole scripts -/

theorem script_append (a b : List Call) : ∀ d : Draft,
    d.script (a ++ b) = ((d.script a).1 ++ ((d.script a).2.script b).1, ((d.script a).2.script b).2) := by
  induction a with
  | nil => exact fun d => rfl
  | cons c a ih =>
    intro d
    rw [List.cons_append, script, ih]
    rfl

/-- What a script keeps. -/
theorem behind_script (first : Draft) (calls : List Call) : first.Behind calls (first.script calls).2 := by
  induction calls using List.reverseRecOn with
  | nil =>
    exact ⟨rfl, first.declarations.given_empty.symm, first.definitions.given_empty.symm⟩
  | append_singleton calls c ih =>
    rw [script_append]
    exact (ih.call c).1

/-- The answer of a call is the one that the draft behind the calls before it gives. -/
theorem getElem?_script (d : Draft) (calls : List Call) (i : Nat) :
    (d.script calls).1[i]? = calls[i]?.map fun c => ((d.script (calls.take i)).2.call c).1 := by
  induction calls generalizing d i with
  | nil => rfl
  | cons c calls ih =>
    cases i with
    | zero => rfl
    | succ i => exact ih (d.call c).2 i

theorem length_script (d : Draft) (calls : List Call) : (d.script calls).1.length = calls.length := by
  induction calls generalizing d with
  | nil => rfl
  | cons c calls ih =>
    rw [script, List.length_cons, List.length_cons, ih]

/-- A call succeeds exactly if its texts fit. -/
theorem answer_eq_ok_iff (d : Draft) (calls : List Call) (i : Nat) :
    (d.script calls).1[i]? = some (.ok ()) ↔ i < calls.length ∧ d.Fitted (calls.take (i + 1)) := by
  rw [getElem?_script]
  by_cases hi : i < calls.length
  · have hcall := ((d.behind_script (calls.take i)).call (calls[i])).2
    rw [List.take_append_getElem hi] at hcall
    rw [List.getElem?_eq_getElem hi, Option.map_some, Option.some.injEq, hcall]
    exact ⟨fun h => ⟨hi, h⟩, fun h => h.2⟩
  · rw [List.getElem?_eq_none (by omega)]
    simp [hi]

theorem tally_call (d : Draft) (c : Call) :
    (d.call c).2.tally =
      ⟨d.tally.sets + (Call.counted? (c, (d.call c).1)).toList.length,
        d.tally.tags + totalTags (Call.counted? (c, (d.call c).1)).toList⟩ := by
  cases c with
  | start =>
    show d.start.2.tally = d.tally
    rw [start, writeBoth_eq]
    rfl
  | add set =>
    show (d.add set).2.tally = ⟨d.tally.sets + (Call.counted? (.add set, (d.add set).1)).toList.length,
      d.tally.tags + totalTags (Call.counted? (.add set, (d.add set).1)).toList⟩
    rw [add_eq]
    rcases perform d.sinks (d.style.writesOf set) with ⟨_ | _, s⟩
    · rfl
    · rw [Call.counted?, Option.toList_some, totalTags_cons]
      rfl

/-- A script counts the sets that its calls add. -/
theorem tally_script (d : Draft) (calls : List Call) :
    (d.script calls).2.tally =
      ⟨d.tally.sets + (addedSets calls (d.script calls).1).length,
        d.tally.tags + totalTags (addedSets calls (d.script calls).1)⟩ := by
  induction calls generalizing d with
  | nil => rfl
  | cons c calls ih =>
    have hadded : addedSets (c :: calls) (d.script (c :: calls)).1 =
        (Call.counted? (c, (d.call c).1)).toList ++ addedSets calls ((d.call c).2.script calls).1 := by
      unfold addedSets
      rw [script, List.zip_cons_cons, List.filterMap_cons]
      cases Call.counted? (c, (d.call c).1) <;> rfl
    rw [hadded, script]
    show ((d.call c).2.script calls).2.tally = _
    rw [ih, tally_call, List.length_append, totalTags_append]
    simp only [Nat.add_assoc]

/-- A draft is finished exactly if the tail fits and both sinks can be flushed. -/
theorem Behind.finish_eq_ok_iff {first d : Draft} {calls : List Call} (h : first.Behind calls d) (tally : Tally) :
    d.finish.1 = .ok tally ↔
      FitsIn first.declarations.room
          (bytesOf first.style .declarations calls ++ Emit.Style.declarationsTail.toUTF8) ∧
        first.declarations.flushFails = false ∧ first.definitions.flushFails = false ∧ tally = d.tally := by
  have htail : 0 < Emit.Style.declarationsTail.toUTF8.size := by decide
  have hwrite := first.declarations.writeAll_given (bytesOf first.style .declarations calls) _ htail
  rw [← h.declarations] at hwrite
  by_cases hfits : FitsIn first.declarations.room
      (bytesOf first.style .declarations calls ++ Emit.Style.declarationsTail.toUTF8)
  · rw [if_pos hfits] at hwrite
    -- what is given to a sink does not change how it is flushed
    have hflags : d.definitions.flushFails = first.definitions.flushFails := by
      rw [h.definitions]
      rfl
    simp only [finish, hwrite]
    rw [Sink.flush_bind, hflags, and_iff_right hfits]
    show Except.map _ (if first.declarations.flushFails || first.definitions.flushFails then _ else _) = _ ↔ _
    cases first.declarations.flushFails <;> cases first.definitions.flushFails <;>
      simp [Except.map, eq_comm]
  · rw [if_neg hfits] at hwrite
    simp only [finish, hwrite]
    refine ⟨fun hok => ?_, fun hok => absurd hok.1 hfits⟩
    cases hok

end Draft

/-- **A draft under any script.** Let any calls to start a draft and to add sets be made, in any order, also
behind calls that fail. Then the declarations hold the first bytes, as many as there is room for, of the
declarations of all calls; and the definitions those of the definitions of the calls whose declarations
fit. A call succeeds exactly if both its texts fit completely. The draft can then be finished exactly if
the tail fits as well and both sinks can be flushed, and it counts the sets that were added with success. -/
theorem script_effect (d : Draft) (calls : List Draft.Call) :
    (d.script calls).2.declarations.held =
      d.declarations.held ++ firstBytes d.declarations.room (Draft.bytesOf d.style .declarations calls) ∧
    (d.script calls).2.definitions.held =
      d.definitions.held ++ firstBytes d.definitions.room
        (Draft.bytesOf d.style .definitions (Draft.declared d.style d.declarations.room calls)) ∧
    (d.script calls).1.length = calls.length ∧
    (∀ i, (d.script calls).1[i]? = some (.ok ()) ↔ i < calls.length ∧ d.Fitted (calls.take (i + 1))) ∧
    ∀ tally, (d.script calls).2.finish.1 = .ok tally ↔
      FitsIn d.declarations.room
          (Draft.bytesOf d.style .declarations calls ++ Emit.Style.declarationsTail.toUTF8) ∧
        d.declarations.flushFails = false ∧ d.definitions.flushFails = false ∧
        tally = ⟨d.tally.sets + (Draft.addedSets calls (d.script calls).1).length,
          d.tally.tags + totalTags (Draft.addedSets calls (d.script calls).1)⟩ := by
  have hbehind := d.behind_script calls
  refine ⟨?_, ?_, d.length_script calls, d.answer_eq_ok_iff calls, fun tally => ?_⟩
  · rw [hbehind.declarations]
    rfl
  · rw [hbehind.definitions]
    rfl
  · rw [hbehind.finish_eq_ok_iff, d.tally_script]

end TagTables
