/-
# Writes to sinks that may fail

A run comes down to a sequence of writes, each of one text to one of the two
sinks, which stops at the first text that does not fit (`perform`). What it
leaves in the sinks can be told from their room beforehand: the longest
beginning of the sequence that fits, and of the next text the bytes that fit.
Whether a beginning fits depends only on what it has for each sink in all
(`Fits`), not on the order in which the sinks take turns.

Key definitions: `Write`, `load`, `Fits`, `perform`, `Performed`.
Key theorems: `perform_of_fits`, `perform_of_misfit`, `exists_performed`.
-/
import Mathlib
import TagTables.Proofs.Streaming

namespace TagTables

/-! ### One sink -/

namespace Sink

/-- The sink with these bytes behind those it holds. -/
def extend (s : Sink) (bytes : ByteArray) : Sink := { s with held := s.held ++ bytes }

/-- There is room for all of the bytes. -/
def Takes (s : Sink) (bytes : ByteArray) : Prop := s.fits bytes.size = bytes.size

/-- The bytes for which there is room. -/
def part (s : Sink) (bytes : ByteArray) : ByteArray := bytes.extract 0 (s.fits bytes.size)

/-- How a write fails that finds no room. -/
def fullError (s : Sink) : SinkError := if s.silent then .nothingTaken else .diskFull

variable (s : Sink) (a b bytes : ByteArray)

theorem takes_empty : s.Takes .empty := by
  have hle := s.fits_le ByteArray.empty.size
  rw [Takes]
  simpa using hle

theorem takes_append : s.Takes (a ++ b) ↔ s.Takes a ∧ (s.extend a).Takes b := by
  cases hl : s.limit with
  | none => simp [Takes, fits, extend, hl]
  | some limit =>
    simp only [Takes, fits, extend, hl, ByteArray.size_append]
    omega

variable {s bytes}

theorem writeAll_of_takes (h : s.Takes bytes) : s.writeAll bytes = (.ok (), s.extend bytes) := by
  unfold Takes at h
  rw [writeAll_eq, if_pos h, h, ByteArray.extract_zero_size]
  rfl

theorem writeAll_of_not_takes (h : ¬ s.Takes bytes) :
    s.writeAll bytes = (.error s.fullError, s.extend (s.part bytes)) := by
  unfold Takes at h
  rw [writeAll_eq, if_neg h]
  rfl

theorem exists_rest_of_not_takes (h : ¬ s.Takes bytes) :
    ∃ rest : ByteArray, 0 < rest.size ∧ s.part bytes ++ rest = bytes := by
  have hle := s.fits_le bytes.size
  have hlt : s.fits bytes.size < bytes.size := Nat.lt_of_le_of_ne hle h
  refine ⟨bytes.extract (s.fits bytes.size) bytes.size, ?_, ?_⟩
  · rw [ByteArray.size_extract]
    omega
  · rw [part, ← ByteArray.extract_eq_extract_append_extract _ (Nat.zero_le _) hle,
      ByteArray.extract_zero_size]

end Sink

/-! ### Two sinks and a sequence of writes -/

/-- The two artifacts. -/
inductive Side where
  | declarations
  | definitions
deriving DecidableEq

/-- A text for one of the sinks. -/
structure Write where
  side : Side
  text : String

/-- A sink for each artifact. -/
abbrev Sinks := Side → Sink

/-- All that a sequence of writes has for one sink. -/
def load (side : Side) (ws : List Write) : String :=
  String.join ((ws.filter fun w => w.side = side).map Write.text)

/-- There is room in both sinks for all that is written to them. -/
def Fits (sinks : Sinks) (ws : List Write) : Prop :=
  ∀ side, (sinks side).Takes (load side ws).toUTF8

/-- Both sinks with all that is written to them. -/
def Sinks.extend (sinks : Sinks) (ws : List Write) : Sinks :=
  fun side => (sinks side).extend (load side ws).toUTF8

/-- Carries out writes one by one and stops at the first that fails. -/
def perform (sinks : Sinks) : List Write → Except SinkError Unit × Sinks
  | [] => (.ok (), sinks)
  | w :: ws =>
    match (sinks w.side).writeAll w.text.toUTF8 with
    | (.error e, sink) => (.error e, Function.update sinks w.side sink)
    | (.ok (), sink) => perform (Function.update sinks w.side sink) ws

section Loads

variable (side : Side) (w : Write) (a b : List Write)

theorem load_nil : load side [] = "" := rfl

theorem load_append : load side (a ++ b) = load side a ++ load side b := by
  simp [load, String.join_append]

theorem load_singleton_self : load w.side [w] = w.text := by
  simp [load]

theorem load_singleton_of_ne (h : w.side ≠ side) : load side [w] = "" := by
  simp [load, h]

variable (sinks : Sinks)

theorem Sinks.extend_nil : sinks.extend [] = sinks := by
  funext side
  simp [Sinks.extend, load_nil, Sink.extend]

theorem Sinks.extend_append : sinks.extend (a ++ b) = (sinks.extend a).extend b := by
  funext side
  simp only [Sinks.extend, load_append, Sink.extend, String.toUTF8_eq_toByteArray, String.toByteArray_append,
    ByteArray.append_assoc]

theorem Sinks.update_extend :
    Function.update sinks w.side ((sinks w.side).extend w.text.toUTF8) = sinks.extend [w] := by
  funext side
  by_cases h : w.side = side
  · subst h
    rw [Function.update_self, Sinks.extend, load_singleton_self]
  · rw [Function.update_of_ne (Ne.symm h), Sinks.extend, load_singleton_of_ne side w h]
    simp [Sink.extend]

theorem fits_nil : Fits sinks [] := fun side => (sinks side).takes_empty

theorem fits_append : Fits sinks (a ++ b) ↔ Fits sinks a ∧ Fits (sinks.extend a) b := by
  unfold Fits
  rw [← forall_and]
  refine forall_congr' fun side => ?_
  rw [load_append, String.toUTF8_eq_toByteArray, String.toByteArray_append]
  exact Sink.takes_append _ _ _

theorem fits_singleton : Fits sinks [w] ↔ (sinks w.side).Takes w.text.toUTF8 := by
  constructor
  · intro h
    have hside := h w.side
    rwa [load_singleton_self] at hside
  · intro h side
    by_cases hs : w.side = side
    · subst hs
      rwa [load_singleton_self]
    · rw [load_singleton_of_ne side w hs]
      exact (sinks side).takes_empty

end Loads

theorem perform_singleton (sinks : Sinks) (w : Write) :
    perform sinks [w] =
      (((sinks w.side).writeAll w.text.toUTF8).1,
        Function.update sinks w.side ((sinks w.side).writeAll w.text.toUTF8).2) := by
  rw [perform]
  rcases (sinks w.side).writeAll w.text.toUTF8 with ⟨_ | _, sink⟩
  · rfl
  · rfl

theorem perform_append (sinks : Sinks) (a b : List Write) :
    perform sinks (a ++ b) =
      match perform sinks a with
      | (.error e, s) => (.error e, s)
      | (.ok (), s) => perform s b := by
  induction a generalizing sinks with
  | nil => rfl
  | cons w a ih =>
    rw [List.cons_append, perform, perform]
    rcases (sinks w.side).writeAll w.text.toUTF8 with ⟨_ | _, sink⟩
    · rfl
    · exact ih _

theorem perform_of_fits {sinks : Sinks} {ws : List Write} (h : Fits sinks ws) :
    perform sinks ws = (.ok (), sinks.extend ws) := by
  induction ws generalizing sinks with
  | nil => rw [perform, Sinks.extend_nil]
  | cons w ws ih =>
    rw [← List.singleton_append, fits_append, fits_singleton] at h
    rw [perform, Sink.writeAll_of_takes h.1]
    simp only [Sinks.update_extend]
    rw [ih h.2, ← Sinks.extend_append, List.singleton_append]

/-- Both sinks behind a write that does not fit: its own has taken a part of it. -/
def Sinks.cut (sinks : Sinks) (w : Write) : Sinks :=
  Function.update sinks w.side ((sinks w.side).extend ((sinks w.side).part w.text.toUTF8))

theorem Sinks.cut_self (sinks : Sinks) (w : Write) :
    sinks.cut w w.side = (sinks w.side).extend ((sinks w.side).part w.text.toUTF8) := by
  rw [cut, Function.update_self]

theorem Sinks.cut_of_ne (sinks : Sinks) {w : Write} {side : Side} (h : w.side ≠ side) :
    sinks.cut w side = sinks side := by
  rw [cut, Function.update_of_ne (Ne.symm h)]

/-- The first write that does not fit finds too little room behind those that do. -/
theorem not_takes_of_misfit {sinks : Sinks} {done : List Write} {w : Write} (hdone : Fits sinks done)
    (hw : ¬ Fits sinks (done ++ [w])) : ¬ (sinks.extend done w.side).Takes w.text.toUTF8 := by
  intro htakes
  exact hw ((fits_append done [w] sinks).mpr ⟨hdone, (fits_singleton w _).mpr htakes⟩)

/-- The first write that does not fit is carried out in part, and nothing behind it. -/
theorem perform_of_misfit {sinks : Sinks} {done : List Write} {w : Write} (rest : List Write)
    (hdone : Fits sinks done) (hw : ¬ Fits sinks (done ++ [w])) :
    perform sinks (done ++ w :: rest) = (.error (sinks w.side).fullError, (sinks.extend done).cut w) := by
  rw [perform_append, perform_of_fits hdone]
  simp only [perform, Sink.writeAll_of_not_takes (not_takes_of_misfit hdone hw)]
  rfl

theorem exists_misfit {sinks : Sinks} {ws : List Write} (h : ¬ Fits sinks ws) :
    ∃ done w rest, ws = done ++ w :: rest ∧ Fits sinks done ∧ ¬ Fits sinks (done ++ [w]) := by
  induction ws generalizing sinks with
  | nil => exact absurd (fits_nil sinks) h
  | cons w ws ih =>
    by_cases hw : Fits sinks [w]
    · have hrest : ¬ Fits (sinks.extend [w]) ws := fun hws =>
        h ((fits_append [w] ws sinks).mpr ⟨hw, hws⟩)
      obtain ⟨done, v, rest, rfl, hdone, hv⟩ := ih hrest
      refine ⟨w :: done, v, rest, rfl, ?_, ?_⟩
      · exact (fits_append [w] done sinks).mpr ⟨hw, hdone⟩
      · intro hfits
        exact hv ((fits_append [w] (done ++ [v]) sinks).mp hfits).2
    · exact ⟨[], w, ws, rfl, fits_nil sinks, hw⟩

theorem perform_eq_ok_iff {sinks : Sinks} {ws : List Write} :
    (perform sinks ws).1 = .ok () ↔ Fits sinks ws := by
  constructor
  · intro hok
    by_contra hfits
    obtain ⟨done, w, rest, rfl, hdone, hw⟩ := exists_misfit hfits
    rw [perform_of_misfit rest hdone hw] at hok
    cases hok
  · intro hfits
    rw [perform_of_fits hfits]

/-- The sinks `final` hold the longest beginning of the writes that fits, which is the first
`n`, and of the next write the bytes that fit. -/
structure Performed (sinks : Sinks) (ws : List Write) (n : Nat) (final : Sinks) : Prop where
  fits : Fits sinks (ws.take n)
  longest : ∀ m ≤ ws.length, Fits sinks (ws.take m) → m ≤ n
  whole : ∀ side, (∀ w, ws[n]? = some w → w.side ≠ side) →
    (final side).held = (sinks side).held ++ (load side (ws.take n)).toUTF8
  partly : ∀ w, ws[n]? = some w →
    (final w.side).held = (sinks w.side).held ++ (load w.side (ws.take n)).toUTF8 ++
      w.text.toUTF8.extract 0 ((sinks.extend (ws.take n) w.side).fits w.text.toUTF8.size)

theorem length_le_of_misfit {sinks : Sinks} {done : List Write} {w : Write} {rest : List Write}
    (hw : ¬ Fits sinks (done ++ [w])) {m : Nat} (hm : Fits sinks ((done ++ w :: rest).take m)) :
    m ≤ done.length := by
  by_contra hlt
  have hsplit : (done ++ w :: rest).take m = (done ++ [w]) ++ rest.take (m - done.length - 1) := by
    obtain ⟨k, rfl⟩ : ∃ k, m = done.length + (k + 1) := ⟨m - done.length - 1, by omega⟩
    have hk : done.length + (k + 1) - done.length - 1 = k := by omega
    rw [hk, List.take_length_add_append, List.take_succ_cons]
    simp
  rw [hsplit] at hm
  exact hw ((fits_append _ _ sinks).mp hm).1

/-- A sequence of writes is carried out as far as it fits. It succeeds if all of it does,
and otherwise fails as the sink of the first write fails that does not. -/
theorem exists_performed (sinks : Sinks) (ws : List Write) :
    ∃ n ≤ ws.length, Performed sinks ws n (perform sinks ws).2 ∧
      (perform sinks ws).1 =
        match ws[n]? with
        | some w => .error (sinks w.side).fullError
        | none => .ok () := by
  by_cases h : Fits sinks ws
  · refine ⟨ws.length, Nat.le_refl _, ?_, ?_⟩
    · rw [perform_of_fits h]
      refine ⟨?_, fun m hm _ => hm, fun side _ => ?_, fun w hw => ?_⟩
      · rwa [List.take_length]
      · rw [List.take_length]
        rfl
      · simp at hw
    · rw [perform_of_fits h]
      simp
  · obtain ⟨done, w, rest, rfl, hdone, hw⟩ := exists_misfit h
    have hget : (done ++ w :: rest)[done.length]? = some w := by simp
    have htake : (done ++ w :: rest).take done.length = done := by simp
    refine ⟨done.length, by simp, ?_, ?_⟩
    · rw [perform_of_misfit rest hdone hw]
      refine ⟨?_, fun m _ hm => length_le_of_misfit hw hm, fun side hside => ?_, fun v hv => ?_⟩
      · rwa [htake]
      · show ((sinks.extend done).cut w side).held = _
        rw [htake, Sinks.cut_of_ne _ (hside w hget)]
        rfl
      · obtain rfl := Option.some.inj (hget.symm.trans hv)
        show ((sinks.extend done).cut w w.side).held = _
        rw [htake, Sinks.cut_self]
        rfl
    · rw [perform_of_misfit rest hdone hw, hget]

end TagTables
