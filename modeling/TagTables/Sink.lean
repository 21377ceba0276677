/-
# Sinks

Where an artifact is written to: a store of bytes with room for so many. One
write takes as many bytes as fit. When there is no room left it fails, or it
takes nothing, which the writer of a whole text counts as a failure too. So
the bytes that fit are kept in any case.

Key definitions: `Sink.write`, `Sink.writeAll`, `Sink.flush`.
-/
namespace TagTables

/-- Why a sink failed. -/
inductive SinkError where
  | diskFull
  | nothingTaken
  | flushFailed
deriving DecidableEq

/-- The words for a failure. -/
def SinkError.message : SinkError → String
  | diskFull => "disk full"
  | nothingTaken => "failed to write whole buffer"
  | flushFailed => "flush failed"

/-- A store of bytes. -/
structure Sink where
  held : ByteArray := .empty
  /-- The most bytes it can hold. -/
  limit : Option Nat := none
  /-- Whether a write to a full sink takes nothing instead of failing. -/
  silent : Bool := false
  /-- Whether a flush fails. -/
  flushFails : Bool := false

namespace Sink

/-- How many of `n` bytes still fit. -/
def fits (s : Sink) (n : Nat) : Nat :=
  match s.limit with
  | none => n
  | some limit => min n (limit - s.held.size)

/-- One write: how many bytes were taken. -/
def write (s : Sink) (bytes : ByteArray) : Except SinkError Nat × Sink :=
  if s.fits bytes.size = 0 ∧ s.silent = false then (.error .diskFull, s)
  else
    (.ok (s.fits bytes.size), { s with held := s.held ++ bytes.extract 0 (s.fits bytes.size) })

/-- Writes until nothing is left or a write fails. -/
def writeAll (s : Sink) (bytes : ByteArray) : Except SinkError Unit × Sink :=
  if bytes.size = 0 then (.ok (), s)
  else
    match s.write bytes with
    | (.error e, s) => (.error e, s)
    | (.ok 0, s) => (.error .nothingTaken, s)
    | (.ok (n + 1), s) => s.writeAll (bytes.extract (n + 1) bytes.size)
termination_by bytes.size
decreasing_by simp only [ByteArray.size_extract]; omega

/-- Hands on what is held. -/
def flush (s : Sink) : Except SinkError Unit :=
  if s.flushFails then .error .flushFailed else .ok ()

theorem fits_le (s : Sink) (n : Nat) : s.fits n ≤ n := by
  unfold fits
  split
  · exact Nat.le_refl n
  · exact Nat.min_le_left ..

/-- Behind a write nothing more fits, unless all did. -/
theorem fits_rest (s : Sink) (bytes : ByteArray) :
    fits { s with held := s.held ++ bytes.extract 0 (s.fits bytes.size) }
      (bytes.size - s.fits bytes.size) = 0 := by
  cases hl : s.limit with
  | none => simp [fits, hl]
  | some limit =>
    have hf : s.fits bytes.size = min bytes.size (limit - s.held.size) := by simp [fits, hl]
    rw [hf]
    simp only [fits, ByteArray.size_append, ByteArray.size_extract]
    omega

/-- Writing a whole text keeps the bytes that fit. It succeeds if all of them do. -/
theorem writeAll_eq (s : Sink) (bytes : ByteArray) :
    s.writeAll bytes =
      (if s.fits bytes.size = bytes.size then .ok ()
        else .error (if s.silent then .nothingTaken else .diskFull),
        { s with held := s.held ++ bytes.extract 0 (s.fits bytes.size) }) := by
  fun_induction writeAll s bytes with
  | case1 s bytes h =>
    have h0 : s.fits bytes.size = 0 := by have := s.fits_le bytes.size; omega
    rw [if_pos (h0.trans h.symm), h0]
    simp
  | case2 s bytes h e t hw =>
    unfold write at hw
    split at hw
    · next hn =>
      simp only [Prod.mk.injEq, Except.error.injEq] at hw
      obtain ⟨rfl, rfl⟩ := hw
      rw [hn.1, if_neg (Ne.symm h), if_neg (by simp [hn.2])]
      simp
    · simp at hw
  | case3 s bytes h t hw =>
    unfold write at hw
    split at hw
    · simp at hw
    · next hn =>
      simp only [Prod.mk.injEq, Except.ok.injEq] at hw
      obtain ⟨h0, rfl⟩ := hw
      have hs : s.silent = true := by simpa [h0] using hn
      simp [h0, hs, Ne.symm h]
  | case4 s bytes h n t hw ih =>
    unfold write at hw
    split at hw
    · simp at hw
    · simp only [Prod.mk.injEq, Except.ok.injEq] at hw
      obtain ⟨hn, rfl⟩ := hw
      have hle := s.fits_le bytes.size
      have hsize : (bytes.extract (n + 1) bytes.size).size = bytes.size - s.fits bytes.size := by
        rw [ByteArray.size_extract]; omega
      have hiff : 0 = bytes.size - s.fits bytes.size ↔ s.fits bytes.size = bytes.size := by omega
      rw [ih, hsize, s.fits_rest bytes]
      simp [hiff]

end Sink
end TagTables
