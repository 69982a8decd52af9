import Mathlib.Algebra.Ring.Nat

/-! # One's-complement sums

Addition of words in which the carry out of the top is added back at the bottom.
`ones` is the word of all ones. The sum of a list is all ones exactly when the
integer sum is a multiple of `ones` other than zero.
-/

namespace Words

/-- A sum with the carries out of the word added back once. -/
def foldCarry (ones value : Nat) : Nat :=
  value % (ones + 1) + value / (ones + 1)

/-- One's-complement addition. -/
def onesAdd (ones left right : Nat) : Nat :=
  foldCarry ones (left + right)

/-- The one's-complement sum of a list of words. -/
def onesSum (ones : Nat) (words : List Nat) : Nat :=
  words.foldl (onesAdd ones) 0

theorem foldCarry_add (ones value : Nat) :
    foldCarry ones value + ones * (value / (ones + 1)) = value := by
  have hdivision := Nat.mod_add_div value (ones + 1)
  rw [Nat.add_mul, Nat.one_mul] at hdivision
  unfold foldCarry
  omega

theorem foldCarry_mod (ones value : Nat) : foldCarry ones value % ones = value % ones := by
  have hsplit := congrArg (· % ones) (foldCarry_add ones value)
  simpa only [Nat.add_mul_mod_self_left] using hsplit

theorem foldCarry_eq_zero_iff {ones value : Nat} : foldCarry ones value = 0 ↔ value = 0 := by
  constructor
  · intro hzero
    have hdivision := Nat.mod_add_div value (ones + 1)
    unfold foldCarry at hzero
    rw [(Nat.add_eq_zero_iff.mp hzero).1, (Nat.add_eq_zero_iff.mp hzero).2] at hdivision
    exact hdivision.symm
  · rintro rfl
    simp [foldCarry]

/-- One fold is enough for two words. -/
theorem onesAdd_le {ones left right : Nat} (hleft : left ≤ ones) (hright : right ≤ ones) :
    onesAdd ones left right ≤ ones := by
  unfold onesAdd foldCarry
  rcases Nat.lt_or_ge (left + right) (ones + 1) with hsmall | hlarge
  · rw [Nat.mod_eq_of_lt hsmall, Nat.div_eq_of_lt hsmall]
    omega
  · have hcarry : (left + right) / (ones + 1) = 1 := Nat.div_eq_of_lt_le (by omega) (by omega)
    have hdivision := Nat.mod_add_div (left + right) (ones + 1)
    rw [hcarry] at hdivision ⊢
    omega

/-- The sum is a word congruent to the integer sum, and zero only for zeros. -/
theorem foldl_onesAdd {ones : Nat} (words : List Nat) (hwords : ∀ word ∈ words, word ≤ ones)
    (start : Nat) (hstart : start ≤ ones) :
    words.foldl (onesAdd ones) start ≤ ones ∧
      words.foldl (onesAdd ones) start % ones = (start + words.sum) % ones ∧
      (words.foldl (onesAdd ones) start = 0 ↔ start + words.sum = 0) := by
  induction words generalizing start with
  | nil => exact ⟨hstart, rfl, Iff.rfl⟩
  | cons word words ih =>
      have hword := hwords word List.mem_cons_self
      obtain ⟨hle, hmod, hzero⟩ := ih (fun other hother => hwords other
        (List.mem_cons_of_mem _ hother)) (onesAdd ones start word) (onesAdd_le hstart hword)
      rw [List.foldl_cons, List.sum_cons, ← Nat.add_assoc]
      refine ⟨hle, ?_, ?_⟩
      · rw [hmod, Nat.add_mod, onesAdd, foldCarry_mod, ← Nat.add_mod]
      · rw [hzero, Nat.add_eq_zero_iff, Nat.add_eq_zero_iff, onesAdd, foldCarry_eq_zero_iff]

theorem onesSum_eq_ones_iff {ones : Nat} (words : List Nat)
    (hwords : ∀ word ∈ words, word ≤ ones) (hones : 0 < ones) :
    onesSum ones words = ones ↔ words.sum % ones = 0 ∧ 0 < words.sum := by
  obtain ⟨hle, hmod, hzero⟩ := foldl_onesAdd words hwords 0 (Nat.zero_le ones)
  rw [Nat.zero_add] at hmod hzero
  unfold onesSum
  constructor
  · intro hall
    rw [hall] at hmod hzero
    rw [Nat.mod_self] at hmod
    exact ⟨hmod.symm, Nat.pos_of_ne_zero fun hnothing => Nat.ne_of_gt hones (hzero.mpr hnothing)⟩
  · rintro ⟨hmultiple, hpos⟩
    rw [hmultiple] at hmod
    have hsome : words.foldl (onesAdd ones) 0 ≠ 0 := fun hnothing =>
      Nat.ne_of_gt hpos (hzero.mp hnothing)
    exact Nat.le_antisymm hle
      (Nat.le_of_dvd (Nat.pos_of_ne_zero hsome) (Nat.dvd_of_mod_eq_zero hmod))

/-! ## The Internet checksum -/

/-- Bytes taken in pairs, the first of a pair most significant. An odd last byte is
padded with zero. -/
def wordsOf : List (BitVec 8) → List Nat
  | [] => []
  | [upper] => [256 * upper.toNat]
  | upper :: lower :: rest => (256 * upper.toNat + lower.toNat) :: wordsOf rest

/-- The words of the bytes, their checksum among them, add up to all ones. -/
def ChecksumValid (bytes : List (BitVec 8)) : Prop :=
  onesSum 0xFFFF (wordsOf bytes) = 0xFFFF

instance : DecidablePred ChecksumValid :=
  fun bytes => inferInstanceAs (Decidable (onesSum 0xFFFF (wordsOf bytes) = 0xFFFF))

theorem wordsOf_le (bytes : List (BitVec 8)) : ∀ word ∈ wordsOf bytes, word ≤ 0xFFFF := by
  induction bytes using wordsOf.induct with
  | case1 => simp [wordsOf]
  | case2 upper =>
      have hupper := upper.isLt
      intro word hmem
      rw [List.mem_singleton.mp hmem]
      omega
  | case3 upper lower rest ih =>
      have hupper := upper.isLt
      have hlower := lower.isLt
      refine List.forall_mem_cons.mpr ⟨?_, ih⟩
      omega

theorem wordsOf_eq (bytes : List (BitVec 8)) :
    wordsOf bytes = (List.range ((bytes.length + 1) / 2)).map fun word =>
      256 * (bytes[2 * word]?.getD 0#8).toNat + (bytes[2 * word + 1]?.getD 0#8).toNat := by
  induction bytes using wordsOf.induct with
  | case1 => rfl
  | case2 upper => simp [wordsOf]
  | case3 upper lower rest ih =>
      have hcount : ((upper :: lower :: rest).length + 1) / 2 = (rest.length + 1) / 2 + 1 := by
        simp only [List.length_cons]
        omega
      rw [wordsOf, ih, hcount, List.range_succ_eq_map, List.map_cons, List.map_map]
      refine List.cons_eq_cons.mpr ⟨by simp, List.map_congr_left ?_⟩
      intro word _
      have htwo : 2 * (word + 1) = 2 * word + 2 := Nat.mul_add_one 2 word
      simp [htwo]

end Words
