import IcmpServer.Rtl.Converter
import IcmpServer.Words.Bytes

/-! # Through both converters

`l8_to_ulong2` moves the bytes of a last beat to the low end of the word, and
`ulong2_to_l8` moves them back. The second shift works on a doubled slice of the
word, which is too narrow for one to three empty bytes.
-/

namespace IcmpServer.Rtl

open Words

/-! ## Packing -/

/-- The bits of the packed 128-bit word that carry a beat. -/
theorem getLsbD_outData (beat : L8Beat) (bit : Nat) :
    (bit < 64 → (l8ToUlong2.outData beat).getLsbD bit = beat.data.getLsbD bit) ∧
      (l8ToUlong2.outData beat).getLsbD 64 = beat.startofpacket ∧
      (l8ToUlong2.outData beat).getLsbD 72 = beat.endofpacket ∧
      (bit < 3 → (l8ToUlong2.outData beat).getLsbD (80 + bit) = beat.empty.getLsbD bit) := by
  have hword : ∀ bit, (l8ToUlong2.outData beat).getLsbD bit =
      BitVec.getLsbD (w := 40 + 5 + 3 + 7 + 1 + 7 + 1 + 64)
        (0#40 ++ 0#5 ++ beat.empty ++ 0#7 ++ BitVec.ofBool beat.endofpacket ++ 0#7 ++
          BitVec.ofBool beat.startofpacket ++ beat.data) bit := fun _ => rfl
  simp only [hword, BitVec.getLsbD_append]
  refine ⟨fun hbit => by simp [hbit], by simp, by simp, ?_⟩
  intro hbit
  have hoffset : 80 + bit - 64 - 1 - 7 - 1 - 7 = bit := by omega
  rw [if_neg (by omega), if_neg (by omega), if_neg (by omega), if_neg (by omega),
    if_neg (by omega), if_pos (by omega), hoffset]

/-- `ulong2_to_l8` unpacks what `l8_to_ulong2` packs. -/
theorem inBeat_outData (beat : L8Beat) : ulong2ToL8.inBeat (l8ToUlong2.outData beat) = beat := by
  obtain ⟨data, startofpacket, endofpacket, empty⟩ := beat
  simp only [ulong2ToL8, L8Beat.mk.injEq]
  refine ⟨?_, (getLsbD_outData _ 0).2.1, (getLsbD_outData _ 0).2.2.1, ?_⟩
  · apply BitVec.eq_of_getLsbD_eq
    intro bit hbit
    rw [BitVec.getLsbD_extractLsb', Nat.zero_add, (getLsbD_outData _ bit).1 hbit]
    simp [hbit]
  · apply BitVec.eq_of_getLsbD_eq
    intro bit hbit
    rw [BitVec.getLsbD_extractLsb', (getLsbD_outData _ bit).2.2.2 hbit]
    simp [hbit]

/-! ## Shifting a last beat -/

theorem l8ToUlong2Remainder_eq (empty : BitVec 3) (data : BitVec 64) :
    l8ToUlong2Remainder true empty data = data >>> (8 * empty.toNat) := by
  have hempty := empty.isLt
  simp only [l8ToUlong2Remainder, if_true]
  generalize empty.toNat = count at hempty
  interval_cases count
  · rfl
  all_goals
    rw [BitVec.ushiftRight_eq_extractLsb'_of_lt (by omega)]
    rfl

/-- Of a slice doubled with zeros the upper half is kept. -/
theorem getLsbD_doubled (data : BitVec 64) (width bit : Nat) (hbit : bit < 64) :
    ((data.extractLsb' 0 width ++ 0#(width)).setWidth 64).getLsbD bit =
      (decide (width ≤ bit ∧ bit < 2 * width) && data.getLsbD (bit - width)) := by
  rw [BitVec.getLsbD_setWidth, BitVec.getLsbD_append]
  rcases Nat.lt_or_ge bit width with hlow | hhigh
  · simp [hbit, hlow, Nat.not_le.mpr hlow]
  · have hupper : (bit - width < width) = (bit < 2 * width) := propext (by omega)
    simp [hbit, hhigh, Nat.not_lt.mpr hhigh, BitVec.getLsbD_extractLsb', hupper]

theorem ulong2ToL8Remainder_eq (empty : BitVec 3) (data : BitVec 64) (hempty : empty ≠ 0#3) :
    ulong2ToL8Remainder true empty data =
      (data.extractLsb' 0 (8 * empty.toNat) ++ 0#(8 * empty.toNat)).setWidth 64 := by
  have hlt := empty.isLt
  have hpositive : empty.toNat ≠ 0 := fun hzero => hempty (BitVec.eq_of_toNat_eq hzero)
  simp only [ulong2ToL8Remainder, if_true]
  generalize empty.toNat = count at hlt hpositive
  interval_cases count
  · exact absurd rfl hpositive
  all_goals rfl

/-- Of the used bytes of a last beat those survive that lie within twice the
number of empty bytes from the end. -/
theorem byte_remainders (empty : BitVec 3) (data : BitVec 64) (index : Nat)
    (hindex : index < 8 - empty.toNat) :
    byte (ulong2ToL8Remainder true empty (l8ToUlong2Remainder true empty data)) index =
      if index < 2 * (8 - empty.toNat) - 8 ∧ empty ≠ 0#3 then 0#8 else byte data index := by
  by_cases hempty : empty = 0#3
  · subst hempty
    simp [ulong2ToL8Remainder, l8ToUlong2Remainder]
  · have hpositive : empty.toNat ≠ 0 := fun hzero => hempty (BitVec.eq_of_toNat_eq hzero)
    rw [ulong2ToL8Remainder_eq _ _ hempty, l8ToUlong2Remainder_eq]
    apply BitVec.eq_of_getLsbD_eq
    intro bit hbit
    have hreached : 8 * empty.toNat ≤ 8 * (7 - index) + bit := by omega
    have hback : 8 * empty.toNat + (8 * (7 - index) + bit - 8 * empty.toNat) =
        8 * (7 - index) + bit := by omega
    rw [getLsbD_byte, getLsbD_doubled _ _ _ (by omega), BitVec.getLsbD_ushiftRight, hback]
    by_cases hlost : index < 2 * (8 - empty.toNat) - 8
    · have hupper : ¬ 8 * (7 - index) + bit < 2 * (8 * empty.toNat) := by omega
      simp [hlost, hempty, hupper]
    · have hupper : 8 * (7 - index) + bit < 2 * (8 * empty.toNat) := by omega
      simp [hlost, hreached, hupper, getLsbD_byte]

/-! ## Packets -/

/-- A beat through both converters. -/
def roundTrip (beat : L8Beat) : L8Beat :=
  ulong2ToL8.convert (l8ToUlong2.convert beat)

/-- Byte `k` of a packet, the first byte of a beat most significant. -/
def wireByte (beats : List L8Beat) (k : Nat) : Option (BitVec 8) :=
  beats[k / 8]?.map fun beat => byte beat.data (k % 8)

/-- The beats carry the bytes of one packet: `startofpacket` on the first,
`endofpacket` on the last, `empty` counting the unused bytes there. -/
structure Carries (bytes : List (BitVec 8)) (beats : List L8Beat) : Prop where
  length : beats.length = (bytes.length + 7) / 8
  startofpacket : ∀ index beat, beats[index]? = some beat →
    beat.startofpacket = decide (index = 0)
  endofpacket : ∀ index beat, beats[index]? = some beat →
    beat.endofpacket = decide (index + 1 = beats.length)
  empty : ∀ beat, beats.getLast? = some beat →
    beat.empty.toNat = 8 * beats.length - bytes.length
  bytes : ∀ k < bytes.length, wireByte beats k = bytes[k]?

/-- The converters give back every marker and every byte of the packet. -/
structure Undone (bytes : List (BitVec 8)) (beats : List L8Beat) : Prop where
  startofpacket : (beats.map roundTrip).map L8Beat.startofpacket =
    beats.map L8Beat.startofpacket
  endofpacket : (beats.map roundTrip).map L8Beat.endofpacket = beats.map L8Beat.endofpacket
  empty : (beats.map roundTrip).map L8Beat.empty = beats.map L8Beat.empty
  bytes : ∀ k < bytes.length, wireByte (beats.map roundTrip) k = bytes[k]?

theorem roundTrip_eq (beat : L8Beat) :
    roundTrip beat = { beat with
      data := ulong2ToL8Remainder beat.endofpacket beat.empty
        (l8ToUlong2Remainder beat.endofpacket beat.empty beat.data) } := by
  rw [roundTrip, Converter.convert, Converter.convert, inBeat_outData]
  rfl

theorem roundTrip_of_not_last (beat : L8Beat) (hlast : beat.endofpacket = false) :
    roundTrip beat = beat := by
  obtain ⟨data, startofpacket, endofpacket, empty⟩ := beat
  obtain rfl : endofpacket = false := hlast
  exact roundTrip_eq _

/-- Byte `k` of the packet behind the converters. -/
theorem wireByte_roundTrip {bytes : List (BitVec 8)} {beats : List L8Beat}
    (hcarries : Carries bytes beats) (k : Nat) (hk : k < bytes.length) :
    wireByte (beats.map roundTrip) k =
      if 8 * (bytes.length / 8) ≤ k ∧ k % 8 < 2 * (bytes.length % 8) - 8 then some 0#8
      else bytes[k]? := by
  have hlength := hcarries.length
  have hkept := hcarries.bytes k hk
  obtain ⟨beat, hbeat⟩ : ∃ beat, beats[k / 8]? = some beat :=
    ⟨_, List.getElem?_eq_getElem (by omega)⟩
  have hend := hcarries.endofpacket _ beat hbeat
  simp only [wireByte, List.getElem?_map, hbeat, Option.map_some] at hkept ⊢
  rw [← hkept]
  by_cases hlast : k / 8 + 1 = beats.length
  · have hempty : beat.empty.toNat = 8 * beats.length - bytes.length := by
      apply hcarries.empty beat
      rw [List.getLast?_eq_getElem?, ← hlast, Nat.add_sub_cancel, hbeat]
    have hzero : beat.empty = 0#3 ↔ bytes.length % 8 = 0 := by
      rw [← BitVec.toNat_inj, hempty, BitVec.toNat_ofNat]
      omega
    rw [roundTrip_eq, hend, decide_eq_true hlast, byte_remainders _ _ _ (by omega)]
    by_cases hcleared : 8 * (bytes.length / 8) ≤ k ∧ k % 8 < 2 * (bytes.length % 8) - 8
    · rw [if_pos hcleared, if_pos ⟨by omega, by rw [ne_eq, hzero]; omega⟩]
    · rw [if_neg hcleared, if_neg fun h => hcleared ?_]
      have hpositive := hzero.not.mp h.2
      omega
  · have hwhole : ¬ (8 * (bytes.length / 8) ≤ k ∧ k % 8 < 2 * (bytes.length % 8) - 8) := by omega
    rw [roundTrip_of_not_last beat (by rw [hend]; simp [hlast]), if_neg hwhole]

/-- The converters undo each other on exactly those packets whose bytes at the
cleared positions are zero: the first two, four or six bytes of the last beat
when it holds five, six or seven. -/
theorem roundTrip_undone_iff (bytes : List (BitVec 8)) (beats : List L8Beat)
    (hcarries : Carries bytes beats) :
    Undone bytes beats ↔
      ∀ k < 2 * (bytes.length % 8) - 8, bytes[8 * (bytes.length / 8) + k]? = some 0#8 := by
  have hmarkers : ∀ {γ : Type} (marker : L8Beat → γ),
      (∀ beat, marker (roundTrip beat) = marker beat) →
      (beats.map roundTrip).map marker = beats.map marker := by
    intro γ marker hmarker
    rw [List.map_map]
    exact List.map_congr_left fun beat _ => hmarker beat
  constructor
  · intro hundone k hk
    have hsame := hundone.bytes (8 * (bytes.length / 8) + k) (by omega)
    rw [wireByte_roundTrip hcarries _ (by omega), if_pos (by omega)] at hsame
    exact hsame.symm
  · intro hzero
    refine ⟨hmarkers _ fun beat => by rw [roundTrip_eq],
      hmarkers _ fun beat => by rw [roundTrip_eq],
      hmarkers _ fun beat => by rw [roundTrip_eq], ?_⟩
    intro k hk
    rw [wireByte_roundTrip hcarries k hk]
    split_ifs with hcleared
    · have hbyte := hzero (k - 8 * (bytes.length / 8)) (by omega)
      have hindex : 8 * (bytes.length / 8) + (k - 8 * (bytes.length / 8)) = k := by omega
      rw [hindex] at hbyte
      exact hbyte.symm
    · rfl

/-! ## Packets of five bytes -/

/-- One beat with three empty bytes. -/
def fiveBytes : L8Beat :=
  ⟨0x1122334455000000#64, true, true, 3#3⟩

/-- The same with two zero bytes in front. -/
def zeroLed : L8Beat :=
  ⟨0x0000334455000000#64, true, true, 3#3⟩

theorem carries_single {bytes : List (BitVec 8)} {data : BitVec 64} (hlength : bytes.length = 5)
    (hbytes : ∀ k < 5, wireByte [⟨data, true, true, 3#3⟩] k = bytes[k]?) :
    Carries bytes [⟨data, true, true, 3#3⟩] where
  length := by rw [hlength]; rfl
  startofpacket
    | 0, _, hbeat => by obtain rfl := Option.some.inj hbeat; rfl
  endofpacket
    | 0, _, hbeat => by obtain rfl := Option.some.inj hbeat; rfl
  empty _ hbeat := by obtain rfl := Option.some.inj hbeat; rw [hlength]; rfl
  bytes := by rwa [hlength]

theorem fiveBytes_carries : Carries [0x11#8, 0x22#8, 0x33#8, 0x44#8, 0x55#8] [fiveBytes] :=
  carries_single rfl (by decide)

theorem zeroLed_carries : Carries [0#8, 0#8, 0x33#8, 0x44#8, 0x55#8] [zeroLed] :=
  carries_single rfl (by decide)

/-- Its first two bytes are lost. -/
theorem roundTrip_fiveBytes :
    Carries [0x11#8, 0x22#8, 0x33#8, 0x44#8, 0x55#8] [fiveBytes] ∧
      ¬ Undone [0x11#8, 0x22#8, 0x33#8, 0x44#8, 0x55#8] [fiveBytes] := by
  refine ⟨fiveBytes_carries, ?_⟩
  intro hundone
  have hbyte := hundone.bytes 0 (by decide)
  revert hbyte
  decide

/-- Zero bytes at their place are given back. -/
theorem roundTrip_undone_iff_fiveBytes :
    (Undone [0x11#8, 0x22#8, 0x33#8, 0x44#8, 0x55#8] [fiveBytes] ↔
      ∀ k < 2, [0x11#8, 0x22#8, 0x33#8, 0x44#8, 0x55#8][k]? = some 0#8) ∧
      Undone [0#8, 0#8, 0x33#8, 0x44#8, 0x55#8] [zeroLed] := by
  constructor
  · simpa using roundTrip_undone_iff [0x11#8, 0x22#8, 0x33#8, 0x44#8, 0x55#8] [fiveBytes]
      fiveBytes_carries
  · exact (roundTrip_undone_iff [0#8, 0#8, 0x33#8, 0x44#8, 0x55#8] [zeroLed]
      zeroLed_carries).mpr (by decide)

end IcmpServer.Rtl
