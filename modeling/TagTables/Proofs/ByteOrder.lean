/-
# Names compare like their bytes

Texts are ordered by their code points, character by character. That is the
order of their UTF-8 forms, byte by byte: of two characters the lesser has
the lesser form, and the two forms differ before either ends (`Before`), so
what comes behind them does not matter.

Key definitions: `utf8Bytes`, `Before`.
Key theorems: `before_utf8EncodeChar`, `lt_iff_utf8Bytes_lt`.
-/
namespace TagTables

/-- The bytes of a text. -/
def utf8Bytes (s : String) : List UInt8 := s.toUTF8.data.toList

/-- Two lists of bytes first differ at a place that both have, and there the first is less. -/
inductive Before : List UInt8 → List UInt8 → Prop where
  | head {x y : UInt8} {xs ys : List UInt8} : x < y → Before (x :: xs) (y :: ys)
  | tail {x : UInt8} {xs ys : List UInt8} : Before xs ys → Before (x :: xs) (x :: ys)

theorem Before.append_lt {xs ys : List UInt8} (h : Before xs ys) (us vs : List UInt8) : xs ++ us < ys ++ vs := by
  induction h with
  | head hlt => exact List.Lex.rel hlt
  | tail _ ih => exact List.Lex.cons ih

/-- Bytes given as numbers: the first pair that differs decides. -/
theorem Before.ofNat_head {m n : Nat} {xs ys : List UInt8} (h : m < n) (hn : n < 256) :
    Before (UInt8.ofNat m :: xs) (UInt8.ofNat n :: ys) := by
  refine .head ?_
  rw [UInt8.lt_iff_toNat_lt, UInt8.toNat_ofNat', UInt8.toNat_ofNat']
  omega

theorem Before.ofNat_cons {m n : Nat} {xs ys : List UInt8} (hle : m ≤ n) (hn : n < 256)
    (h : m = n → Before xs ys) : Before (UInt8.ofNat m :: xs) (UInt8.ofNat n :: ys) := by
  rcases Nat.lt_or_eq_of_le hle with hlt | heq
  · exact .ofNat_head hlt hn
  · rw [heq]
    exact .tail (h heq)

/-! ### Forms of one length

They hold the digits of the code point to base 64, the highest first. -/

section Forms

variable {m n : Nat} (h : m < n)
include h

theorem before_two (hn : n ≤ 0x7ff) :
    Before [UInt8.ofNat (m / 64 % 0x20 + 0xc0), UInt8.ofNat (m % 64 + 0x80)]
      [UInt8.ofNat (n / 64 % 0x20 + 0xc0), UInt8.ofNat (n % 64 + 0x80)] := by
  refine .ofNat_cons (by omega) (by omega) fun hlead => ?_
  exact .ofNat_head (by omega) (by omega)

theorem before_three (hn : n ≤ 0xffff) :
    Before [UInt8.ofNat (m / 4096 % 0x10 + 0xe0), UInt8.ofNat (m / 64 % 64 + 0x80), UInt8.ofNat (m % 64 + 0x80)]
      [UInt8.ofNat (n / 4096 % 0x10 + 0xe0), UInt8.ofNat (n / 64 % 64 + 0x80), UInt8.ofNat (n % 64 + 0x80)] := by
  refine .ofNat_cons (by omega) (by omega) fun hlead => ?_
  refine .ofNat_cons (by omega) (by omega) fun hsecond => ?_
  exact .ofNat_head (by omega) (by omega)

theorem before_four (hn : n < 0x110000) :
    Before [UInt8.ofNat (m / 262144 % 0x08 + 0xf0), UInt8.ofNat (m / 4096 % 64 + 0x80),
        UInt8.ofNat (m / 64 % 64 + 0x80), UInt8.ofNat (m % 64 + 0x80)]
      [UInt8.ofNat (n / 262144 % 0x08 + 0xf0), UInt8.ofNat (n / 4096 % 64 + 0x80),
        UInt8.ofNat (n / 64 % 64 + 0x80), UInt8.ofNat (n % 64 + 0x80)] := by
  refine .ofNat_cons (by omega) (by omega) fun hlead => ?_
  refine .ofNat_cons (by omega) (by omega) fun hsecond => ?_
  refine .ofNat_cons (by omega) (by omega) fun hthird => ?_
  exact .ofNat_head (by omega) (by omega)

end Forms

/-! ### Characters and texts -/

/-- The lesser of two characters has the lesser form: a longer form has the greater first byte. -/
theorem before_utf8EncodeChar {c d : Char} (h : c < d) :
    Before (String.utf8EncodeChar c) (String.utf8EncodeChar d) := by
  have hlt : c.val.toNat < d.val.toNat := h
  have hmax : d.val.toNat < 0x110000 := by
    have hvalid := d.valid
    simp only [UInt32.isValidChar, Nat.isValidChar] at hvalid
    omega
  simp only [String.utf8EncodeChar]
  generalize c.val.toNat = m at hlt
  generalize d.val.toNat = n at hlt hmax
  -- by the length of the lesser form; the other is as long or longer
  by_cases hm1 : m ≤ 0x7f
  · rw [if_pos hm1]
    split
    · exact .ofNat_head hlt (by omega)
    · split
      · exact .ofNat_head (by omega) (by omega)
      · split <;> exact .ofNat_head (by omega) (by omega)
  · rw [if_neg hm1, if_neg (by omega : ¬ n ≤ 0x7f)]
    by_cases hm2 : m ≤ 0x7ff
    · rw [if_pos hm2]
      split
      · next hn2 => exact before_two hlt hn2
      · split <;> exact .ofNat_head (by omega) (by omega)
    · rw [if_neg hm2, if_neg (by omega : ¬ n ≤ 0x7ff)]
      by_cases hm3 : m ≤ 0xffff
      · rw [if_pos hm3]
        split
        · next hn3 => exact before_three hlt hn3
        · exact .ofNat_head (by omega) (by omega)
      · rw [if_neg hm3, if_neg (by omega : ¬ n ≤ 0xffff)]
        exact before_four hlt hmax

theorem utf8Bytes_eq (s : String) : utf8Bytes s = s.toList.flatMap String.utf8EncodeChar := by
  rw [utf8Bytes, String.toUTF8_eq_toByteArray, ← String.utf8Encode_toList, List.utf8Encode]
  simp

theorem utf8_lt_of_lt : ∀ {cs ds : List Char}, cs < ds →
    cs.flatMap String.utf8EncodeChar < ds.flatMap String.utf8EncodeChar
  | _, _, .nil => by
    rename_i d ds
    rw [List.flatMap_nil, List.flatMap_cons]
    cases hd : String.utf8EncodeChar d with
    | nil => exact absurd hd String.utf8EncodeChar_ne_nil
    | cons => exact List.nil_lt_cons _ _
  | _, _, .rel h => by
    rw [List.flatMap_cons, List.flatMap_cons]
    exact (before_utf8EncodeChar h).append_lt _ _
  | _, _, .cons h => by
    rw [List.flatMap_cons, List.flatMap_cons]
    exact List.append_left_lt (utf8_lt_of_lt h)

/-- The order of texts is the order of their bytes. -/
theorem lt_iff_utf8Bytes_lt (s t : String) : s < t ↔ utf8Bytes s < utf8Bytes t := by
  rw [utf8Bytes_eq, utf8Bytes_eq]
  refine ⟨fun h => utf8_lt_of_lt h, fun h => ?_⟩
  refine Decidable.byContradiction fun hle => ?_
  by_cases heq : t = s
  · exact List.lt_irrefl _ (heq ▸ h)
  · have hlt : t < s := Std.lt_of_le_of_ne (String.not_lt.mp hle) heq
    exact List.lt_asymm h (utf8_lt_of_lt hlt)

end TagTables
