import IcmpServer.IcmpProc.Payload
import IcmpServer.Words.OnesComplement
import Mathlib.Algebra.BigOperators.ModEq

/-! # The message checksum

`icmp_proc_param` on its own. It clears the type of an ICMP message and adds it to
the checksum in one's complement, which leaves the sum of the message as it is. The
8-bit index comes round every 256 beats, so behind each 2048 bytes of a message it
does the same to two words of the payload, whatever they are.
-/

namespace IcmpServer.IcmpProc

open Elastic

/-! ## Messages -/

/-- Word `j` of the message of `len` bytes in a packet, an odd last byte padded with
zero. -/
def messageWord (packet : List Beat) (len j : Nat) : Nat :=
  256 * (packetByte packet (34 + 2 * j)).toNat +
    if 2 * j + 1 < len then (packetByte packet (35 + 2 * j)).toNat else 0

def messageWords (packet : List Beat) (len : Nat) : List Nat :=
  (List.range ((len + 1) / 2)).map (messageWord packet len)

/-- The message carries a valid checksum. -/
def MessageValid (packet : List Beat) (len : Nat) : Prop :=
  Words.onesSum 0xFFFF (messageWords packet len) = 0xFFFF

/-- What the component adds to word `j`, modulo `0xFFFF`. -/
def wordDrift (packet : List Beat) (len j : Nat) : Int :=
  if j % 1024 = 0 then -256 * (packetByte packet (34 + 2 * j)).toNat
  else if j % 1024 = 1 then
    if 2 * j + 1 < len then 0x0800
    -- only the first byte of the field belongs to the message
    else if (packetByte packet (34 + 2 * j)).toNat < 0xF8 then 0x0800
    else if packetByte packet (35 + 2 * j) = 0xFF#8 then -0xF700
    else -0xF800
  else 0

/-- What it adds behind the first 2048 bytes. -/
def drift (packet : List Beat) (len : Nat) : Int :=
  ((List.range' 1024 ((len + 1) / 2 - 1024)).map (wordDrift packet len)).sum

theorem messageWord_lt (packet : List Beat) (len j : Nat) : messageWord packet len j < 65536 := by
  have hhigh := (packetByte packet (34 + 2 * j)).isLt
  have hlow := (packetByte packet (35 + 2 * j)).isLt
  unfold messageWord
  split_ifs <;> omega

/-- A message that is not all zeros is valid when its sum is a multiple of all ones. -/
theorem messageValid_iff {packet : List Beat} {len j : Nat} (hj : 2 * j < len)
    (hsome : 0 < messageWord packet len j) :
    MessageValid packet len ↔ (0xFFFF : Int) ∣ (messageWords packet len).sum := by
  have hwords : ∀ word ∈ messageWords packet len, word ≤ 0xFFFF := by
    intro word hword
    obtain ⟨k, -, rfl⟩ := List.mem_map.mp hword
    exact Nat.le_of_lt_succ (messageWord_lt packet len k)
  have hmem : messageWord packet len j ∈ messageWords packet len :=
    List.mem_map_of_mem (List.mem_range.mpr (by omega))
  have hpos : 0 < (messageWords packet len).sum :=
    Nat.lt_of_lt_of_le hsome (List.le_sum_of_mem hmem)
  rw [MessageValid, Words.onesSum_eq_ones_iff _ hwords (by decide), and_iff_left hpos]
  exact Nat.dvd_iff_mod_eq_zero.symm.trans Int.natCast_dvd_natCast.symm

/-! ## What is emitted -/

/-- The beats that the component makes of a packet. -/
def paramEmitted (packet : List Beat) : List Beat :=
  (numbered 0 packet).map paramRewrite

theorem getElem?_numbered (start : Nat) (packet : List Beat) (index : Nat) :
    (numbered start packet)[index]? =
      packet[index]?.map fun beat => ⟨beat, BitVec.ofNat 8 (start + index)⟩ := by
  induction packet generalizing start index with
  | nil => rfl
  | cons beat rest ih =>
      cases index with
      | zero => rfl
      | succ index =>
          rw [numbered, List.getElem?_cons_succ, List.getElem?_cons_succ, ih]
          simp only [Nat.add_assoc, Nat.add_comm 1 index]

@[simp] theorem length_paramEmitted (packet : List Beat) :
    (paramEmitted packet).length = packet.length := by
  have hlength := congrArg List.length (numbered_map_beat 0 packet)
  rw [List.length_map] at hlength
  rw [paramEmitted, List.length_map, hlength]

/-- The checksum update is an addition in one's complement. -/
theorem paramChksum_onesAdd (data : BitVec 64) :
    (paramChksum ((data >>> 16).setWidth 16)).toNat =
      Words.onesAdd 0xFFFF (byteField data 4) 0x0800 := by
  have hfield := byteField_lt data 4
  rw [paramChksum_toNat, toNat_paramField, Words.onesAdd, Words.foldCarry]
  split_ifs <;> omega

/-- Bytes 2, 4 and 5 of the beats with index 4 change. -/
theorem packetByte_paramEmitted (packet : List Beat) {k : Nat} (hk : k / 8 < packet.length) :
    packetByte (paramEmitted packet) k =
      if k % 2048 = 34 then 0#8
      else if k % 2048 = 36 then
        BitVec.ofNat 8 (Words.onesAdd 0xFFFF (packetField packet k) 0x0800 / 256)
      else if k % 2048 = 37 then
        BitVec.ofNat 8 (Words.onesAdd 0xFFFF (packetField packet (k - 1)) 0x0800)
      else packetByte packet k := by
  have hbeat : packet[k / 8]? = some packet[k / 8] := List.getElem?_eq_getElem hk
  have hbyte : ∀ index, index / 8 = k / 8 →
      packetByte packet index = Words.byte packet[k / 8].data (index % 8) := by
    intro index hindex
    rw [packetByte, hindex, hbeat]
  have hemitted : packetByte (paramEmitted packet) k =
      Words.byte (paramData (BitVec.ofNat 8 (k / 8)) packet[k / 8].data) (k % 8) := by
    simp [packetByte, paramEmitted, getElem?_numbered, hbeat, paramRewrite]
  have hwrap : BitVec.ofNat 8 (k / 8) = 4#8 ↔ k / 8 % 256 = 4 := by
    rw [← BitVec.toNat_inj, BitVec.toNat_ofNat]
    exact Iff.rfl
  rw [hemitted]
  by_cases hidx : k / 8 % 256 = 4
  · have htype : k % 8 = 2 ↔ k % 2048 = 34 := by omega
    have hhigh : k % 8 = 4 ↔ k % 2048 = 36 := by omega
    have hlow : k % 8 = 5 ↔ k % 2048 = 37 := by omega
    rw [hwrap.mpr hidx, byte_paramData _ _ (Nat.mod_lt k (by decide)), paramChksum_onesAdd]
    simp only [htype, hhigh, hlow]
    split_ifs with _ hfirst hsecond
    · rfl
    · rw [packetField, hbyte k rfl, hbyte (k + 1) (by omega), hhigh.mpr hfirst,
        (by omega : (k + 1) % 8 = 5), byteField]
    · rw [packetField, hbyte (k - 1) (by omega), hbyte (k - 1 + 1) (by omega),
        (by omega : (k - 1) % 8 = 4), (by omega : (k - 1 + 1) % 8 = 5), byteField]
    · exact (hbyte k rfl).symm
  · rw [paramData, if_neg (mt hwrap.mp hidx), if_neg (by omega), if_neg (by omega),
      if_neg (by omega), hbyte k rfl]

/-! ## The sum of the message -/

/-- A word behind another index stays. -/
theorem messageWord_other {packet : List Beat} {len j : Nat}
    (hinside : 34 + 2 * j < 8 * packet.length) (htype : j % 1024 ≠ 0) (hfield : j % 1024 ≠ 1) :
    messageWord (paramEmitted packet) len j = messageWord packet len j := by
  have hhigh := packetByte_paramEmitted packet (k := 34 + 2 * j) (by omega)
  have hlow := packetByte_paramEmitted packet (k := 35 + 2 * j) (by omega)
  rw [if_neg (by omega), if_neg (by omega), if_neg (by omega)] at hhigh hlow
  rw [messageWord, hhigh, hlow, messageWord]

/-- A type is cleared, and the code stays. -/
theorem messageWord_type {packet : List Beat} (len : Nat) {j : Nat}
    (hinside : 34 + 2 * j < 8 * packet.length) (htype : j % 1024 = 0) :
    messageWord (paramEmitted packet) len j + 256 * (packetByte packet (34 + 2 * j)).toNat =
      messageWord packet len j := by
  have hhigh := packetByte_paramEmitted packet (k := 34 + 2 * j) (by omega)
  have hlow := packetByte_paramEmitted packet (k := 35 + 2 * j) (by omega)
  rw [if_pos (by omega)] at hhigh
  rw [if_neg (by omega), if_neg (by omega), if_neg (by omega)] at hlow
  rw [messageWord, hhigh, hlow, messageWord, BitVec.toNat_zero]
  omega

/-- The type is added to a checksum field, of which the message may have only the
first byte. -/
theorem messageWord_field {packet : List Beat} (len : Nat) {j : Nat}
    (hinside : 34 + 2 * j < 8 * packet.length) (hfield : j % 1024 = 1) :
    messageWord (paramEmitted packet) len j =
      if 2 * j + 1 < len then Words.onesAdd 0xFFFF (packetField packet (34 + 2 * j)) 0x0800
      else 256 * (Words.onesAdd 0xFFFF (packetField packet (34 + 2 * j)) 0x0800 / 256) := by
  have hhigh := packetByte_paramEmitted packet (k := 34 + 2 * j) (by omega)
  have hlow := packetByte_paramEmitted packet (k := 35 + 2 * j) (by omega)
  have hsource : 35 + 2 * j - 1 = 34 + 2 * j := by omega
  have hbound : Words.onesAdd 0xFFFF (packetField packet (34 + 2 * j)) 0x0800 ≤ 0xFFFF :=
    Words.onesAdd_le (Nat.le_of_lt_succ (packetField_lt packet _)) (by decide)
  rw [if_neg (by omega), if_pos (by omega)] at hhigh
  rw [if_neg (by omega), if_neg (by omega), if_pos (by omega), hsource] at hlow
  rw [messageWord, hhigh, hlow, BitVec.toNat_ofNat, BitVec.toNat_ofNat]
  split_ifs <;> omega

/-- Where the message ends within the field, its last word changes by the drift. -/
theorem messageWord_cut {packet : List Beat} {len j : Nat}
    (hinside : 34 + 2 * j < 8 * packet.length) (hfield : j % 1024 = 1)
    (hcut : ¬ 2 * j + 1 < len) :
    (messageWord (paramEmitted packet) len j : Int) =
      messageWord packet len j + wordDrift packet len j := by
  have hword := messageWord_field len hinside hfield
  have hown : messageWord packet len j = 256 * (packetByte packet (34 + 2 * j)).toNat := by
    rw [messageWord, if_neg hcut, Nat.add_zero]
  have hsource : 34 + 2 * j + 1 = 35 + 2 * j := by omega
  have hlow := (packetByte packet (35 + 2 * j)).isLt
  rw [if_neg hcut, packetField, hsource, Words.onesAdd, Words.foldCarry] at hword
  rw [wordDrift, if_neg (by omega), if_pos hfield, if_neg hcut]
  split_ifs with hsmall hall
  · omega
  · rw [hall] at hword hlow
    simp only [BitVec.toNat_ofNat] at hword
    omega
  · have hless : (packetByte packet (35 + 2 * j)).toNat ≠ 255 := fun hsame =>
      hall (BitVec.eq_of_toNat_eq hsame)
    omega

/-- Only the words of a type and of a checksum field drift. -/
theorem sum_wordDrift_eq_zero (packet : List Beat) (len : Nat) {words : List Nat}
    (hwords : ∀ j ∈ words, 2 ≤ j % 1024) : (words.map (wordDrift packet len)).sum = 0 := by
  apply List.sum_eq_zero
  intro change hchange
  obtain ⟨j, hj, rfl⟩ := List.mem_map.mp hchange
  have hother := hwords j hj
  rw [wordDrift, if_neg (by omega), if_neg (by omega)]

/-- A word changes by its drift. -/
theorem messageWord_paramEmitted {packet : List Beat} {len j : Nat}
    (hinside : 34 + 2 * j < 8 * packet.length) :
    (messageWord (paramEmitted packet) len j : Int) ≡
      messageWord packet len j + wordDrift packet len j [ZMOD 0xFFFF] := by
  by_cases htype : j % 1024 = 0
  · have hword := messageWord_type len hinside htype
    have hdrift : (messageWord (paramEmitted packet) len j : Int) =
        messageWord packet len j + wordDrift packet len j := by
      rw [wordDrift, if_pos htype]
      omega
    rw [hdrift]
  · by_cases hfield : j % 1024 = 1
    · by_cases hwhole : 2 * j + 1 < len
      · have hsource : 34 + 2 * j + 1 = 35 + 2 * j := by omega
        rw [messageWord_field len hinside hfield, if_pos hwhole, packetField, hsource, messageWord,
          if_pos hwhole, wordDrift, if_neg htype, if_pos hfield, if_pos hwhole]
        exact Int.natCast_modEq_iff.mpr (Words.foldCarry_mod 0xFFFF _)
      · rw [messageWord_cut hinside hfield hwhole]
    · rw [messageWord_other hinside htype hfield, wordDrift, if_neg htype, if_neg hfield,
        Int.add_zero]

/-- In the first 2048 bytes the type and the checksum are those of the message, and
what is taken from the one is added to the other. -/
theorem sum_wordDrift {packet : List Beat} {len : Nat} (hlen : 4 ≤ len)
    (htype : packetByte packet 34 = 8#8) :
    ((List.range ((len + 1) / 2)).map (wordDrift packet len)).sum = drift packet len := by
  obtain ⟨more, hmore⟩ : ∃ more, min ((len + 1) / 2) 1024 = more + 2 :=
    ⟨min ((len + 1) / 2) 1024 - 2, by omega⟩
  have hfront : 0 :: 1 :: List.range' 2 more = List.range' 0 (more + 2) := rfl
  have hsplit : List.range ((len + 1) / 2) =
      (0 :: 1 :: List.range' 2 more) ++ List.range' 1024 ((len + 1) / 2 - 1024) := by
    rw [List.range_eq_range', hfront, ← hmore]
    rcases Nat.le_total ((len + 1) / 2) 1024 with hshort | hlong
    · rw [Nat.min_eq_left hshort, Nat.sub_eq_zero_of_le hshort, List.range'_zero, List.append_nil]
    · have happend := @List.range'_append_1 0 1024 ((len + 1) / 2 - 1024)
      rw [Nat.zero_add, Nat.add_sub_cancel' hlong] at happend
      rw [Nat.min_eq_right hlong, happend]
  have hzero : ((List.range' 2 more).map (wordDrift packet len)).sum = 0 := by
    apply sum_wordDrift_eq_zero
    intro j hj
    rw [List.mem_range'_1] at hj
    omega
  have hfirst : wordDrift packet len 0 + wordDrift packet len 1 = 0 := by
    rw [wordDrift, wordDrift, if_pos rfl, if_neg (by decide), if_pos rfl, if_pos (by omega),
      htype]
    rfl
  rw [hsplit, List.map_append, List.sum_append, List.map_cons, List.map_cons, List.sum_cons,
    List.sum_cons, hzero, drift]
  omega

theorem messageSum_paramEmitted {packet : List Beat} {len : Nat} (hlen : 4 ≤ len)
    (hinside : 34 + len ≤ 8 * packet.length) (htype : packetByte packet 34 = 8#8) :
    ((messageWords (paramEmitted packet) len).sum : Int) ≡
      (messageWords packet len).sum + drift packet len [ZMOD 0xFFFF] := by
  have hcast : ∀ beats, ((messageWords beats len).sum : Int) =
      ((List.range ((len + 1) / 2)).map fun j => (messageWord beats len j : Int)).sum := by
    intro beats
    rw [messageWords, Nat.cast_list_sum, List.map_map]
    rfl
  rw [hcast, hcast, ← sum_wordDrift hlen htype, ← List.sum_map_add]
  apply Int.ModEq.listSum_map
  intro j hj
  have hj := List.mem_range.mp hj
  exact messageWord_paramEmitted (by omega)

/-- A request is valid when its sum is a multiple of all ones, and what is emitted for
it when its sum and the drift are. -/
theorem messageValid_paramEmitted {packet : List Beat} {len : Nat} (hlen : 4 ≤ len)
    (hinside : 34 + len ≤ 8 * packet.length) (htype : packetByte packet 34 = 8#8) :
    (MessageValid packet len ↔ (0xFFFF : Int) ∣ (messageWords packet len).sum) ∧
      (MessageValid (paramEmitted packet) len ↔
        (0xFFFF : Int) ∣ (messageWords packet len).sum + drift packet len) := by
  have hrequest : 0 < messageWord packet len 0 := by
    rw [messageWord, Nat.mul_zero, Nat.add_zero, htype]
    exact Nat.lt_of_lt_of_le (by decide) (Nat.le_add_right _ _)
  have hchksum : 0 < messageWord (paramEmitted packet) len 1 := by
    rw [messageWord_field len (by omega) rfl, if_pos (by omega), Nat.pos_iff_ne_zero, Words.onesAdd,
      ne_eq, Words.foldCarry_eq_zero_iff]
    omega
  have hsum := messageSum_paramEmitted hlen hinside htype
  exact ⟨messageValid_iff (by omega) hrequest,
    (messageValid_iff (by omega) hchksum).trans hsum.dvd_iff⟩

/-- Validity is kept when the drift vanishes, or when it leads from one sum that is
not valid to another. -/
theorem validity_kept_iff {packet : List Beat} {len : Nat} (hlen : 4 ≤ len)
    (hinside : 34 + len ≤ 8 * packet.length) (htype : packetByte packet 34 = 8#8) :
    (MessageValid (paramEmitted packet) len ↔ MessageValid packet len) ↔
      (0xFFFF : Int) ∣ drift packet len ∨
        ¬ (0xFFFF : Int) ∣ (messageWords packet len).sum ∧
          ¬ (0xFFFF : Int) ∣ (messageWords packet len).sum + drift packet len := by
  obtain ⟨hrequest, hemitted⟩ := messageValid_paramEmitted hlen hinside htype
  rw [hrequest, hemitted]
  constructor
  · intro hkept
    by_cases hvalid : (0xFFFF : Int) ∣ (messageWords packet len).sum
    · exact Or.inl ((Int.dvd_add_right hvalid).mp (hkept.mpr hvalid))
    · exact Or.inr ⟨hvalid, mt hkept.mp hvalid⟩
  · rintro (hdrift | ⟨hcorrupt, hstill⟩)
    · exact Int.dvd_add_left hdrift
    · exact iff_of_false hstill hcorrupt

/-- In a message of at most 2048 bytes there is no drift. -/
theorem drift_of_short (packet : List Beat) {len : Nat} (hlen : len ≤ 2048) :
    drift packet len = 0 := by
  have hnone : (len + 1) / 2 - 1024 = 0 := by omega
  rw [drift, hnone]
  rfl

/-! ## In a run -/

/-- Packets in front are dealt with on their own. -/
theorem param_packets (before : List (List Beat))
    (hbefore : ∀ packet ∈ before, IsPacket Beat.last packet) (rest : List Beat) :
    (indexed 0#8 (before.flatten ++ rest)).map paramRewrite =
      (before.map paramEmitted).flatten ++ (indexed 0#8 rest).map paramRewrite := by
  induction before with
  | nil => rfl
  | cons packet before ih =>
      have hpacket := indexed_packet (hbefore packet List.mem_cons_self) 0
        (before.flatten ++ rest)
      rw [List.flatten_cons, List.append_assoc, hpacket, List.map_append,
        ih fun other hother => hbefore other (List.mem_cons_of_mem _ hother), List.map_cons,
        List.flatten_cons, List.append_assoc]
      rfl

theorem param_packet (before : List (List Beat))
    (hbefore : ∀ packet ∈ before, IsPacket Beat.last packet) {packet : List Beat}
    (hpacket : IsPacket Beat.last packet) (after : List Beat) :
    paramComponentAccount.computes (before.flatten ++ packet ++ after) =
      (before.map paramEmitted).flatten ++
        (paramEmitted packet ++ (indexed 0#8 after).map paramRewrite) := by
  have hnext := indexed_packet hpacket 0 after
  rw [List.append_assoc]
  refine (param_packets before hbefore (packet ++ after)).trans ?_
  rw [hnext, List.map_append]
  rfl

/-- Behind complete packets, the ICMP message that the component emits for a request is
valid exactly when the request's is, if and only if the drift is a multiple of all
ones, as it is up to 2048 bytes, or neither sum is. -/
theorem param_valid_iff (before : List (List Beat))
    (hbefore : ∀ packet ∈ before, IsPacket Beat.last packet) (packet : List Beat)
    (hpacket : IsPacket Beat.last packet) (after : List Beat) (len : Nat) (hlen : 4 ≤ len)
    (hinside : 34 + len ≤ 8 * packet.length) (htype : packetByte packet 34 = 8#8) :
    (∀ schedule,
      before.flatten.length + packet.length ≤ (param.run (param.start
          (before.flatten ++ packet ++ after)) schedule).output.length →
        (MessageValid (((param.run (param.start (before.flatten ++ packet ++ after))
          schedule).output.drop before.flatten.length).take packet.length) len ↔
            MessageValid packet len)) ↔
      (0xFFFF : Int) ∣ drift packet len ∨
        ¬ (0xFFFF : Int) ∣ (messageWords packet len).sum ∧
          ¬ (0xFFFF : Int) ∣ (messageWords packet len).sum + drift packet len := by
  have hfront : (before.map paramEmitted).flatten.length = before.flatten.length :=
    length_flatten_map fun other _ => length_paramEmitted other
  rw [← validity_kept_iff hlen hinside htype]
  exact paramComponentAccount.window_iff isRound_component
    (param_packet before hbefore hpacket after) hfront (length_paramEmitted packet)
    fun written => MessageValid written len ↔ MessageValid packet len

theorem param_valid_test :
    drift testIcmpReq 40 = 0 ∧ ∀ schedule,
      [testIcmpReq].flatten.length + testIcmpReq.length ≤ (param.run (param.start
          ([testIcmpReq].flatten ++ testIcmpReq ++ shortIcmp)) schedule).output.length →
        (MessageValid (((param.run (param.start ([testIcmpReq].flatten ++ testIcmpReq ++ shortIcmp))
          schedule).output.drop [testIcmpReq].flatten.length).take testIcmpReq.length) 40 ↔
            MessageValid testIcmpReq 40) := by
  have hdrift : drift testIcmpReq 40 = 0 := drift_of_short testIcmpReq (by decide)
  refine ⟨hdrift, (param_valid_iff [testIcmpReq] (by decide) testIcmpReq (by decide) shortIcmp 40
    (by decide) (by decide) (by decide)).mpr (Or.inl ?_)⟩
  rw [hdrift]
  exact Int.dvd_zero _

/-! ## A long request -/

/-- The request of 300 beats with the checksum that belongs to it. -/
def validJumboReq : List Beat :=
  [⟨0x00005e00016654bf#64, 1#8, 0#8, 0#8⟩,
    ⟨0x648042d808004500#64, 0#8, 0#8, 0#8⟩,
    ⟨0x094c02de00008001#64, 0#8, 0#8, 0#8⟩,
    ⟨0x0000ac1f18873dd3#64, 0#8, 0#8, 0#8⟩,
    ⟨0xe2040800f7fe0001#64, 0#8, 0#8, 0#8⟩] ++ jumboIcmpReq.drop 5

theorem isPacket_validJumboReq : IsPacket Beat.last validJumboReq :=
  IsPacket.append (by decide) (isPacket_jumboIcmpReq.cut (by rw [length_jumboIcmpReq]; decide)).2

theorem drop_validJumboReq : validJumboReq.drop 5 =
    List.replicate 294 ⟨0#64, 0#8, 0#8, 0#8⟩ ++ [⟨0#64, 0#8, 1#8, 6#8⟩] := rfl

/-- Behind the headers the request is zero. -/
theorem packetByte_validJumboReq {k : Nat} (hk : 40 ≤ k) : packetByte validJumboReq k = 0#8 := by
  obtain ⟨later, rfl⟩ := Nat.exists_eq_add_of_le hk
  rw [← packetByte_drop validJumboReq 5, packetByte]
  split
  next beat hbeat =>
    have hmem := List.mem_of_getElem? hbeat
    have hzero : beat.data = 0#64 := by
      rw [drop_validJumboReq] at hmem
      rcases List.mem_append.mp hmem with hmiddle | hfinal
      · rw [List.eq_of_mem_replicate hmiddle]
      · rw [List.mem_singleton.mp hfinal]
    rw [hzero, Words.byte, BitVec.extractLsb'_zero]
  next => rfl

theorem messageSum_validJumboReq : (messageWords validJumboReq 2360).sum = 0xFFFF := by
  have hrange : List.range 1180 = 0 :: 1 :: 2 :: List.range' 3 1177 := by
    rw [List.range_eq_range']
    rfl
  have hzero : ((List.range' 3 1177).map (messageWord validJumboReq 2360)).sum = 0 := by
    apply List.sum_eq_zero
    intro word hword
    obtain ⟨j, hj, rfl⟩ := List.mem_map.mp hword
    rw [List.mem_range'_1] at hj
    rw [messageWord, packetByte_validJumboReq (by omega), packetByte_validJumboReq (by omega)]
    simp
  rw [messageWords, hrange, List.map_cons, List.map_cons, List.map_cons, List.sum_cons,
    List.sum_cons, List.sum_cons, hzero]
  decide

/-- The type added to the checksum of the second 2048 bytes. -/
theorem drift_validJumboReq : drift validJumboReq 2360 = 0x0800 := by
  have hrange : List.range' 1024 156 = 1024 :: 1025 :: List.range' 1026 154 := rfl
  have hnone : ((List.range' 1026 154).map (wordDrift validJumboReq 2360)).sum = 0 := by
    apply sum_wordDrift_eq_zero
    intro j hj
    rw [List.mem_range'_1] at hj
    omega
  rw [drift, hrange, List.map_cons, List.map_cons, List.sum_cons, List.sum_cons, hnone, wordDrift,
    wordDrift, packetByte_validJumboReq (by decide)]
  rfl

/-- A valid request comes out as a message that is not valid. -/
theorem param_invalidates_validJumboReq :
    (IsPacket Beat.last validJumboReq ∧ packetByte validJumboReq 34 = 8#8 ∧
        34 + 2360 ≤ 8 * validJumboReq.length ∧ MessageValid validJumboReq 2360) ∧
      ∃ schedule,
        (param.run (param.start validJumboReq) schedule).output.length = validJumboReq.length ∧
          ¬ MessageValid (param.run (param.start validJumboReq) schedule).output 2360 := by
  have hlength : validJumboReq.length = 300 := by
    rw [validJumboReq, List.length_append, List.length_drop, length_jumboIcmpReq]
    rfl
  have hinside : 34 + 2360 ≤ 8 * validJumboReq.length := by rw [hlength]; decide
  have htype : packetByte validJumboReq 34 = 8#8 := by decide
  obtain ⟨hrequest, hemitted⟩ := messageValid_paramEmitted (by decide) hinside htype
  rw [messageSum_validJumboReq] at hrequest hemitted
  rw [drift_validJumboReq] at hemitted
  obtain ⟨schedule, hcomplete⟩ :=
    paramComponentAccount.exists_complete isRound_component validJumboReq
  have hcomputes := param_packet [] (by simp) isPacket_validJumboReq []
  simp only [List.flatten_nil, List.nil_append, List.append_nil, List.map_nil] at hcomputes
  rw [hcomputes] at hcomplete
  refine ⟨⟨isPacket_validJumboReq, htype, hinside, hrequest.mpr (by decide)⟩, schedule, ?_, ?_⟩
  · rw [hcomplete, indexed, List.map_nil, List.append_nil, length_paramEmitted]
  · rw [hcomplete, indexed, List.map_nil, List.append_nil, hemitted]
    decide

end IcmpServer.IcmpProc
