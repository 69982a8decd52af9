import Mathlib.Data.List.Basic
import Mathlib.Tactic.IntervalCases

/-! # Bytes of 64-bit words

Bytes are numbered from the most significant one, as they are sent. Words are
compared byte by byte; masks and shifts by whole bytes act on single bytes.
-/

namespace Words

/-- Byte `index` of a word, the first byte most significant. -/
def byte (word : BitVec 64) (index : Nat) : BitVec 8 :=
  word.extractLsb' (8 * (7 - index)) 8

/-- The word with the given bytes. -/
def ofBytes (bytes : Nat → BitVec 8) : BitVec 64 :=
  bytes 0 ++ bytes 1 ++ bytes 2 ++ bytes 3 ++ bytes 4 ++ bytes 5 ++ bytes 6 ++ bytes 7

theorem getLsbD_byte (word : BitVec 64) (index bit : Nat) :
    (byte word index).getLsbD bit =
      (decide (bit < 8) && word.getLsbD (8 * (7 - index) + bit)) := by
  simp [byte, BitVec.getLsbD_extractLsb']

/-- Two words with the same bytes are the same. -/
theorem ext {left right : BitVec 64} (hbytes : ∀ index < 8, byte left index = byte right index) :
    left = right := by
  apply BitVec.eq_of_getLsbD_eq
  intro bit hbit
  have hbyte := congrArg (fun value => value.getLsbD (bit % 8)) (hbytes (7 - bit / 8) (by omega))
  simp only [getLsbD_byte] at hbyte
  have hindex : 8 * (7 - (7 - bit / 8)) + bit % 8 = bit := by omega
  simpa [hindex, Nat.mod_lt bit (by omega : 0 < 8)] using hbyte

theorem byte_ofBytes (bytes : Nat → BitVec 8) (index : Nat) (hindex : index < 8) :
    byte (ofBytes bytes) index = bytes index := by
  apply BitVec.eq_of_getLsbD_eq
  intro bit hbit
  rw [getLsbD_byte]
  interval_cases index <;>
    simp only [ofBytes, BitVec.getLsbD_append, hbit, decide_true, Bool.true_and] <;> grind

/-- The first bytes of a value of `count` bytes, most significant first. -/
def bytes {width : Nat} (count : Nat) (value : BitVec width) : List (BitVec 8) :=
  (List.range count).map fun index => value.extractLsb' (8 * (count - 1 - index)) 8

/-- A word is filled with a shorter value from its last byte. -/
theorem byte_setWidth {width : Nat} (value : BitVec width) (index : Nat) :
    byte (value.setWidth 64) index = value.extractLsb' (8 * (7 - index)) 8 := by
  apply BitVec.eq_of_getLsbD_eq
  intro bit hbit
  have hwide : 8 * (7 - index) + bit < 64 := by omega
  simp only [getLsbD_byte, BitVec.getLsbD_setWidth, BitVec.getLsbD_extractLsb', hbit, hwide,
    decide_true, Bool.true_and]

/-- The filling is zero. -/
@[simp] theorem extractLsb'_of_le {width : Nat} (value : BitVec width) (first count : Nat)
    (hbeyond : width ≤ first) : value.extractLsb' first count = 0#(count) := by
  apply BitVec.eq_of_getLsbD_eq
  intro bit hbit
  rw [BitVec.getLsbD_extractLsb', BitVec.getLsbD_of_ge _ _ (by omega), Bool.and_false,
    BitVec.getLsbD_zero]

theorem extractLsb'_extractLsb' {width : Nat} (value : BitVec width) {first count outer kept : Nat}
    (hinside : first + count ≤ kept) :
    (value.extractLsb' outer kept).extractLsb' first count =
      value.extractLsb' (outer + first) count := by
  apply BitVec.eq_of_getLsbD_eq
  intro bit hbit
  have hkept : first + bit < kept := by omega
  simp only [BitVec.getLsbD_extractLsb', hbit, hkept, decide_true, Bool.true_and, Nat.add_assoc]

theorem bytes_append {width : Nat} (upper : BitVec width) (lower : BitVec 16) :
    bytes 4 (upper ++ lower) = bytes 2 upper ++ bytes 2 lower := by
  simp [bytes, List.range_succ, BitVec.extractLsb'_append_eq_of_le,
    BitVec.extractLsb'_append_eq_of_add_le]

theorem bytes_inj (left right : BitVec 16) : bytes 2 left = bytes 2 right ↔ left = right := by
  refine ⟨?_, congrArg (bytes 2)⟩
  intro hbytes
  obtain ⟨hupper, hlower⟩ : left.extractLsb' 8 8 = right.extractLsb' 8 8 ∧
      left.extractLsb' 0 8 = right.extractLsb' 0 8 := by
    simpa [bytes, List.range_succ] using hbytes
  have hsplit : ∀ half : BitVec 16, half.extractLsb' 8 8 ++ half.extractLsb' 0 8 = half :=
    fun _ => BitVec.extractLsb'_append_extractLsb'
  rw [← hsplit left, ← hsplit right, hupper, hlower]

theorem toNat_byte (word : BitVec 64) (index : Nat) :
    (byte word index).toNat = word.toNat / 2 ^ (8 * (7 - index)) % 256 := by
  simp [byte, BitVec.extractLsb'_toNat, Nat.shiftRight_eq_div_pow]

/-! ## Masks and shifts -/

theorem byte_and (left right : BitVec 64) (index : Nat) :
    byte (left &&& right) index = byte left index &&& byte right index := by
  apply BitVec.eq_of_getLsbD_eq
  intro bit hbit
  simp only [getLsbD_byte, BitVec.getLsbD_and, hbit, decide_true, Bool.true_and]

theorem byte_or (left right : BitVec 64) (index : Nat) :
    byte (left ||| right) index = byte left index ||| byte right index := by
  apply BitVec.eq_of_getLsbD_eq
  intro bit hbit
  simp only [getLsbD_byte, BitVec.getLsbD_or, hbit, decide_true, Bool.true_and]

theorem byte_not (word : BitVec 64) (index : Nat) :
    byte (~~~word) index = ~~~byte word index := by
  apply BitVec.eq_of_getLsbD_eq
  intro bit hbit
  have hwide : 8 * (7 - index) + bit < 64 := by omega
  simp only [getLsbD_byte, BitVec.getLsbD_not, hbit, hwide, decide_true, Bool.true_and]

theorem byte_ofNat (value index : Nat) :
    byte (BitVec.ofNat 64 value) index =
      BitVec.ofNat 8 ((value % 2 ^ 64) >>> (8 * (7 - index))) := by
  simp [byte, BitVec.extractLsb']

/-- Shifting left by whole bytes drops the first ones. -/
theorem byte_shiftLeft (word : BitVec 64) (shift index : Nat) (hshift : shift % 8 = 0)
    (hindex : index < 8) :
    byte (word <<< shift) index =
      if index + shift / 8 < 8 then byte word (index + shift / 8) else 0#8 := by
  apply BitVec.eq_of_getLsbD_eq
  intro bit hbit
  split_ifs with hinside
  · have hsource : 8 * (7 - index) + bit - shift = 8 * (7 - (index + shift / 8)) + bit := by omega
    have hwide : 8 * (7 - index) + bit < 64 := by omega
    have hlow : ¬ 8 * (7 - index) + bit < shift := by omega
    simp only [getLsbD_byte, BitVec.getLsbD_shiftLeft, hsource, hwide, hlow, decide_true,
      decide_false, Bool.not_false, Bool.true_and]
  · have hlow : 8 * (7 - index) + bit < shift := by omega
    simp only [getLsbD_byte, BitVec.getLsbD_shiftLeft, BitVec.getLsbD_zero, hlow, decide_true,
      Bool.not_true, Bool.and_false, Bool.false_and]

/-- Shifting right by whole bytes drops the last ones. -/
theorem byte_shiftRight (word : BitVec 64) (shift index : Nat) (hshift : shift % 8 = 0)
    (hindex : index < 8) :
    byte (word >>> shift) index =
      if shift / 8 ≤ index then byte word (index - shift / 8) else 0#8 := by
  apply BitVec.eq_of_getLsbD_eq
  intro bit hbit
  split_ifs with hinside
  · have hsource : shift + (8 * (7 - index) + bit) = 8 * (7 - (index - shift / 8)) + bit := by omega
    simp only [getLsbD_byte, BitVec.getLsbD_ushiftRight, hsource]
  · have hwide : 64 ≤ shift + (8 * (7 - index) + bit) := by omega
    simp only [getLsbD_byte, BitVec.getLsbD_ushiftRight, BitVec.getLsbD_zero,
      BitVec.getLsbD_of_ge _ _ hwide, Bool.and_false]

@[simp] theorem and_ones (value : BitVec 8) : value &&& 255#8 = value :=
  BitVec.and_allOnes

end Words
