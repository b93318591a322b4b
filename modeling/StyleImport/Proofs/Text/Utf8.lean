/-
Texts read back from their bytes.

A character has one to four bytes, as many as the first of them says; the others only continue it.
So the reading of the bytes of a character ends with it, whatever follows.

* `Utf8.decodeFrom_encodeChar` — the bytes of a character are read as the character;
* `Utf8.decode_encode` — the bytes of a text are read as the text;
* `Utf8.translateNewlines_of_not_mem` — without a carriage return no line end is changed.
-/
import Mathlib.Tactic.Common
import StyleImport.Text.Utf8

namespace StyleImport

namespace Utf8

/-! ### Single bytes -/

theorem toNat_byte {n : Nat} (h : n < 256) : (UInt8.ofNat n).toNat = n :=
  UInt8.toNat_ofNat_of_lt' h

/-- A byte that continues a sequence, and the bits that it adds. -/
theorem tail_byte {n : Nat} (h : n < 64) :
    isTail (UInt8.ofNat (n + 128)) = true ∧ tailBits (UInt8.ofNat (n + 128)) = n := by
  have hbyte : (UInt8.ofNat (n + 128)).toNat = n + 128 := toNat_byte (by omega)
  constructor
  · simp only [isTail, UInt8.le_iff_toNat_le, hbyte, UInt8.toNat_ofNat, Bool.and_eq_true,
      decide_eq_true_eq]
    omega
  · rw [tailBits, hbyte]
    omega

/-- A byte may stand second if it continues a sequence and, behind four of the first bytes, is in
the half that gives the shortest form, no surrogate and nothing above the last code point. -/
theorem isSecond_of {a b : UInt8} (htail : isTail b = true)
    (hthree : a.toNat = 0xE0 → 0xA0 ≤ b.toNat) (hsurrogate : a.toNat = 0xED → b.toNat < 0xA0)
    (hfour : a.toNat = 0xF0 → 0x90 ≤ b.toNat) (hlast : a.toNat = 0xF4 → b.toNat < 0x90) :
    isSecond a b = true := by
  simp only [isSecond, htail, UInt8.le_iff_toNat_le, UInt8.lt_iff_toNat_lt, UInt8.toNat_ofNat,
    Bool.and_eq_true, Bool.or_eq_true, bne_iff_ne, ne_eq, decide_eq_true_eq, true_and,
    ← UInt8.toNat_inj]
  omega

/-! ### Sequences of bytes -/

variable {a b c d : UInt8} (pos : Nat) (rest : List UInt8)

theorem decodeFrom_one (ha : a.toNat < 0x80) :
    decodeFrom pos (a :: rest) = (decodeFrom (pos + 1) rest).map (Char.ofNat a.toNat :: ·) := by
  have hlength : sequenceLength a = 1 := if_pos (UInt8.lt_iff_toNat_lt.mpr ha)
  rw [decodeFrom.eq_def]
  simp only [hlength]

theorem decodeFrom_two (ha : 0xC2 ≤ a.toNat ∧ a.toNat < 0xE0) (hb : isSecond a b = true) :
    decodeFrom pos (a :: b :: rest) = (decodeFrom (pos + 2) rest).map
      (Char.ofNat (a.toNat % 0x20 * 0x40 + tailBits b) :: ·) := by
  have hlength : sequenceLength a = 2 := by
    simp only [sequenceLength, UInt8.lt_iff_toNat_lt, UInt8.toNat_ofNat]
    split_ifs <;> omega
  rw [decodeFrom.eq_def]
  simp only [hlength, hb, if_true]

theorem decodeFrom_three (ha : 0xE0 ≤ a.toNat ∧ a.toNat < 0xF0) (hb : isSecond a b = true)
    (hc : isTail c = true) :
    decodeFrom pos (a :: b :: c :: rest) = (decodeFrom (pos + 3) rest).map
      (Char.ofNat ((a.toNat % 0x10 * 0x40 + tailBits b) * 0x40 + tailBits c) :: ·) := by
  have hlength : sequenceLength a = 3 := by
    simp only [sequenceLength, UInt8.lt_iff_toNat_lt, UInt8.toNat_ofNat]
    split_ifs <;> omega
  rw [decodeFrom.eq_def]
  simp only [hlength, hb, hc, Bool.not_true, Bool.false_eq_true, if_false]

theorem decodeFrom_four (ha : 0xF0 ≤ a.toNat ∧ a.toNat < 0xF5) (hb : isSecond a b = true)
    (hc : isTail c = true) (hd : isTail d = true) :
    decodeFrom pos (a :: b :: c :: d :: rest) = (decodeFrom (pos + 4) rest).map
      (Char.ofNat (((a.toNat % 8 * 0x40 + tailBits b) * 0x40 + tailBits c) * 0x40
        + tailBits d) :: ·) := by
  have hlength : sequenceLength a = 4 := by
    simp only [sequenceLength, UInt8.lt_iff_toNat_lt, UInt8.toNat_ofNat]
    split_ifs <;> omega
  rw [decodeFrom.eq_def]
  simp only [hlength, hb, hc, hd, Bool.not_true, Bool.false_eq_true, if_false]

/-! ### Characters -/

/-- The code of a character is no surrogate and not above the last one. -/
theorem toNat_cases (c : Char) : c.toNat < 0xD800 ∨ 0xDFFF < c.toNat ∧ c.toNat < 0x110000 :=
  c.valid

theorem decodeFrom_encodeChar (c : Char) :
    decodeFrom pos (String.utf8EncodeChar c ++ rest)
      = (decodeFrom (pos + (String.utf8EncodeChar c).length) rest).map (c :: ·) := by
  have hvalid := toNat_cases c
  have hchar : Char.ofNat c.toNat = c := Char.ofNat_toNat c
  unfold String.utf8EncodeChar
  rw [Char.toNat_val]
  generalize c.toNat = v at hvalid hchar ⊢
  dsimp only
  -- The cases are those of the number of bytes.
  split_ifs with hone htwo hthree
  · have hfirst : (UInt8.ofNat v).toNat = v := toNat_byte (by omega)
    rw [List.singleton_append, decodeFrom_one pos rest (by omega), hfirst, hchar]
    rfl
  · have hfirst : (UInt8.ofNat (v / 64 % 32 + 192)).toNat = v / 64 + 192 := by
      rw [toNat_byte (by omega)]
      omega
    obtain ⟨htail, hbits⟩ := tail_byte (n := v % 64) (by omega)
    have hvalue : (v / 64 + 192) % 0x20 * 0x40 + v % 64 = v := by omega
    rw [List.cons_append, List.singleton_append, decodeFrom_two pos rest ⟨by omega, by omega⟩
      (isSecond_of htail (by omega) (by omega) (by omega) (by omega)), hfirst, hbits, hvalue, hchar]
    rfl
  · have hfirst : (UInt8.ofNat (v / 4096 % 16 + 224)).toNat = v / 4096 + 224 := by
      rw [toNat_byte (by omega)]
      omega
    have hsecond : (UInt8.ofNat (v / 64 % 64 + 128)).toNat = v / 64 % 64 + 128 :=
      toNat_byte (by omega)
    obtain ⟨htail₁, hbits₁⟩ := tail_byte (n := v / 64 % 64) (by omega)
    obtain ⟨htail₂, hbits₂⟩ := tail_byte (n := v % 64) (by omega)
    have hvalue : ((v / 4096 + 224) % 0x10 * 0x40 + v / 64 % 64) * 0x40 + v % 64 = v := by omega
    rw [List.cons_append, List.cons_append, List.singleton_append,
      decodeFrom_three pos rest ⟨by omega, by omega⟩
        (isSecond_of htail₁ (by omega) (by omega) (by omega) (by omega)) htail₂,
      hfirst, hbits₁, hbits₂, hvalue, hchar]
    rfl
  · have hfirst : (UInt8.ofNat (v / 262144 % 8 + 240)).toNat = v / 262144 + 240 := by
      rw [toNat_byte (by omega)]
      omega
    have hsecond : (UInt8.ofNat (v / 4096 % 64 + 128)).toNat = v / 4096 % 64 + 128 :=
      toNat_byte (by omega)
    obtain ⟨htail₁, hbits₁⟩ := tail_byte (n := v / 4096 % 64) (by omega)
    obtain ⟨htail₂, hbits₂⟩ := tail_byte (n := v / 64 % 64) (by omega)
    obtain ⟨htail₃, hbits₃⟩ := tail_byte (n := v % 64) (by omega)
    have hvalue : (((v / 262144 + 240) % 8 * 0x40 + v / 4096 % 64) * 0x40 + v / 64 % 64) * 0x40
        + v % 64 = v := by omega
    rw [List.cons_append, List.cons_append, List.cons_append, List.singleton_append,
      decodeFrom_four pos rest ⟨by omega, by omega⟩
        (isSecond_of htail₁ (by omega) (by omega) (by omega) (by omega)) htail₂ htail₃,
      hfirst, hbits₁, hbits₂, hbits₃, hvalue, hchar]
    rfl

/-! ### Texts -/

/-- The bytes of a text are read as the text. -/
theorem decode_encode (t : Text) : decode (encode t) = .ok t := by
  have hfrom : ∀ pos, decodeFrom pos (encode t) = .ok t := by
    induction t with
    | nil => exact fun pos => rfl
    | cons c t ih =>
      intro pos
      rw [encode, List.flatMap_cons, decodeFrom_encodeChar, ← encode, ih]
      rfl
  exact hfrom 0

theorem translateNewlines_of_not_mem {t : Text} (h : '\r' ∉ t) : translateNewlines t = t := by
  induction t with
  | nil => rfl
  | cons c t ih =>
    obtain ⟨hc, ht⟩ := not_or.mp (List.mem_cons.not.mp h)
    rw [translateNewlines, ih ht]
    · rintro _ rfl -
      exact hc rfl
    · exact fun heq => hc heq.symm

end Utf8

end StyleImport
