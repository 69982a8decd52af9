import IcmpServer.IcmpProc.Reply

/-! # The bytes of the reply

The masks and shifts of the four components, read byte by byte, are the
exchanges and sums of the reply.
-/

namespace IcmpServer.IcmpProc

/-- Bytes `index` and `index + 1` of a word as a number. -/
def byteField (data : BitVec 64) (index : Nat) : Nat :=
  256 * (Words.byte data index).toNat + (Words.byte data (index + 1)).toNat

theorem byteField_lt (data : BitVec 64) (index : Nat) : byteField data index < 65536 := by
  have hhigh := (Words.byte data index).isLt
  have hlow := (Words.byte data (index + 1)).isLt
  simp only [byteField]
  omega

/-- A masked 16-bit slice is the field of its two bytes. -/
theorem word24_toNat (data : BitVec 64) (index : Nat) (hindex : index ≤ 6) :
    (word24 data (8 * (6 - index))).toNat = byteField data index := by
  have hhigh : 8 * (7 - index) = 8 * (6 - index) + 8 := by omega
  have hlow : 7 - (index + 1) = 6 - index := by omega
  have hshift : 2 ^ (8 * (7 - index)) = 2 ^ (8 * (6 - index)) * 256 := by
    rw [hhigh, Nat.pow_add]
  have hmask : data.toNat / 2 ^ (8 * (6 - index)) &&& 65535 =
      data.toNat / 2 ^ (8 * (6 - index)) % 65536 := Nat.and_two_pow_sub_one_eq_mod _ 16
  simp only [word24, byteField, Words.toNat_byte, hshift, ← Nat.div_div_eq_div_mul,
    hlow, BitVec.toNat_setWidth, BitVec.toNat_and, BitVec.toNat_ushiftRight,
    Nat.shiftRight_eq_div_pow, BitVec.toNat_ofNat]
  norm_num only [hmask]
  omega

/-! ## Address swaps -/

theorem byte_macFront (first second : BitVec 64) (index : Nat) (hindex : index < 8) :
    Words.byte (macField.front first second) index =
      if index < 2 then Words.byte first (index + 6)
      else if index < 6 then Words.byte second (index - 2)
      else Words.byte first (index - 6) := by
  interval_cases index <;>
    simp [macField, Words.byte_or, Words.byte_and, Words.byte_shiftLeft, Words.byte_shiftRight,
      Words.byte_ofNat]

theorem byte_macBack (first second : BitVec 64) (index : Nat) (hindex : index < 8) :
    Words.byte (macField.back first second) index =
      if index < 4 then Words.byte first (index + 2) else Words.byte second index := by
  interval_cases index <;>
    simp [macField, Words.byte_or, Words.byte_and, Words.byte_shiftLeft, Words.byte_ofNat]

theorem byte_ipFront (first second : BitVec 64) (index : Nat) (hindex : index < 8) :
    Words.byte (ipField.front first second) index =
      if index < 2 then Words.byte first index
      else if index < 4 then Words.byte first (index + 4)
      else if index < 6 then Words.byte second (index - 4)
      else Words.byte first (index - 4) := by
  interval_cases index <;>
    simp [ipField, Words.byte_or, Words.byte_and, Words.byte_shiftLeft, Words.byte_shiftRight,
      Words.byte_ofNat]

theorem byte_ipBack (first second : BitVec 64) (index : Nat) (hindex : index < 8) :
    Words.byte (ipField.back first second) index =
      if index < 2 then Words.byte first (index + 4) else Words.byte second index := by
  interval_cases index <;>
    simp [ipField, Words.byte_or, Words.byte_and, Words.byte_shiftLeft, Words.byte_ofNat]

/-! ## Reply type and ICMP checksum -/

/-- Adding the reply's type to the complement, in ones' complement. -/
theorem paramChksum_toNat (field : BitVec 16) :
    (paramChksum field).toNat =
      if field.toNat + 0x0800 ≤ 0xFFFF then field.toNat + 0x0800
      else field.toNat + 0x0800 - 0xFFFF := by
  have hfield := field.isLt
  simp only [paramChksum]
  split_ifs <;> bv_omega

/-- The bytes of a narrower number. -/
theorem byte_setWidth {width : Nat} (value : BitVec width) (index : Nat) (hindex : index < 8) :
    Words.byte (value.setWidth 64) index =
      BitVec.ofNat 8 (value.toNat / 2 ^ (8 * (7 - index))) := by
  apply BitVec.eq_of_toNat_eq
  rw [Words.toNat_byte, BitVec.toNat_setWidth, BitVec.toNat_ofNat]
  interval_cases index <;> omega

theorem byte_paramData (data : BitVec 64) (index : Nat) (hindex : index < 8) :
    Words.byte (paramData 4#8 data) index =
      if index = 2 then 0#8
      else if index = 4 then
        BitVec.ofNat 8 ((paramChksum ((data >>> 16).setWidth 16)).toNat / 256)
      else if index = 5 then BitVec.ofNat 8 (paramChksum ((data >>> 16).setWidth 16)).toNat
      else Words.byte data index := by
  have hdata : paramData 4#8 data = (data &&& 0xFFFF00FF0000FFFF#64) |||
      ((paramChksum ((data >>> 16).setWidth 16)).setWidth 64 <<< 16) := rfl
  rw [hdata]
  generalize paramChksum ((data >>> 16).setWidth 16) = chksum
  have hhigh : ∀ divisor, 65536 ≤ divisor → chksum.toNat / divisor = 0 := fun divisor hdivisor =>
    Nat.div_eq_of_lt (Nat.lt_of_lt_of_le chksum.isLt hdivisor)
  interval_cases index <;>
    simp [Words.byte_or, Words.byte_and, Words.byte_shiftLeft, Words.byte_ofNat, byte_setWidth,
      hhigh]

/-! ## IPv4 header checksum -/

/-- `checksum` before the fold of case 4. -/
def chksumSum (b1 b2 b3 b4 : Beat) : BitVec 24 :=
  word24 b1.data 0 +
    (word24 b2.data 48 + word24 b2.data 32 + word24 b2.data 16 + word24 b2.data 0) +
    (word24 b3.data 32 + word24 b3.data 16 + word24 b3.data 0) + word24 b4.data 48

theorem chksumOf_eq (b1 b2 b3 b4 : Beat) :
    chksumOf b1 b2 b3 b4 =
      (chksumSum b1 b2 b3 b4 &&& 0x00FFFF#24) +
        ((chksumSum b1 b2 b3 b4 >>> 16) &&& 0x00FFFF#24) := by
  simp [chksumOf, chksumUpdate, chksumSum, word24]

/-- Nine 16-bit words fit the 24-bit register. -/
theorem chksumSum_toNat (b1 b2 b3 b4 : Beat) :
    (chksumSum b1 b2 b3 b4).toNat = byteField b1.data 6 +
      (byteField b2.data 0 + byteField b2.data 2 + byteField b2.data 4 + byteField b2.data 6) +
      (byteField b3.data 2 + byteField b3.data 4 + byteField b3.data 6) + byteField b4.data 0 := by
  have h48 : ∀ data, (word24 data 48).toNat = byteField data 0 :=
    fun data => word24_toNat data 0 (by omega)
  have h32 : ∀ data, (word24 data 32).toNat = byteField data 2 :=
    fun data => word24_toNat data 2 (by omega)
  have h16 : ∀ data, (word24 data 16).toNat = byteField data 4 :=
    fun data => word24_toNat data 4 (by omega)
  have h0 : ∀ data, (word24 data 0).toNat = byteField data 6 :=
    fun data => word24_toNat data 6 (by omega)
  simp only [chksumSum, BitVec.toNat_add, h48, h32, h16, h0]
  have hb1 := byteField_lt b1.data 6
  have hb20 := byteField_lt b2.data 0
  have hb22 := byteField_lt b2.data 2
  have hb24 := byteField_lt b2.data 4
  have hb26 := byteField_lt b2.data 6
  have hb32 := byteField_lt b3.data 2
  have hb34 := byteField_lt b3.data 4
  have hb36 := byteField_lt b3.data 6
  have hb40 := byteField_lt b4.data 0
  omega

/-- The sum register after beats 1 to 4 is the integer sum folded once. -/
theorem chksumOf_toNat (b1 b2 b3 b4 : Beat) :
    (chksumOf b1 b2 b3 b4).toNat =
      (chksumSum b1 b2 b3 b4).toNat % 0x10000 + (chksumSum b1 b2 b3 b4).toNat / 0x10000 := by
  have hsum := (chksumSum b1 b2 b3 b4).isLt
  have hmask : ∀ value, value &&& 65535 = value % 65536 :=
    fun value => Nat.and_two_pow_sub_one_eq_mod value 16
  simp only [chksumOf_eq, BitVec.toNat_add, BitVec.toNat_and, BitVec.toNat_ushiftRight,
    BitVec.toNat_ofNat, Nat.shiftRight_eq_div_pow]
  norm_num only [hmask]
  have hcarry : (chksumSum b1 b2 b3 b4).toNat / 65536 < 256 := by omega
  rw [Nat.mod_eq_of_lt (by omega : (chksumSum b1 b2 b3 b4).toNat / 65536 < 65536)]
  exact Nat.mod_eq_of_lt (by omega)

theorem byte_chksumInsert (checksum : BitVec 24) (beat : Beat) (index : Nat) (hindex : index < 8) :
    Words.byte (chksumInsert checksum beat).data index =
      if index = 0 then BitVec.ofNat 8 ((0xFFFF - checksum.toNat % 0x10000) / 256)
      else if index = 1 then BitVec.ofNat 8 (0xFFFF - checksum.toNat % 0x10000)
      else Words.byte beat.data index := by
  interval_cases index
  case «0» | «1» =>
    apply BitVec.eq_of_toNat_eq
    simp [chksumInsert, Words.byte_or, Words.byte_and, Words.byte_shiftLeft, Words.byte_not,
      Words.byte_ofNat, byte_setWidth]
    omega
  all_goals
    simp [chksumInsert, Words.byte_or, Words.byte_and, Words.byte_shiftLeft, Words.byte_ofNat]

/-! ## The four components together -/

/-- A beat is known by its bytes and markers. -/
theorem eq_replyBeat {packet : List Beat} {index : Nat} (beat : Beat) {data : BitVec 64}
    (hbytes : ∀ k < 8, Words.byte data k = replyByte packet (8 * index + k)) :
    { beat with data := data } = replyBeat packet index beat := by
  have hdata : data = Words.ofBytes fun k => replyByte packet (8 * index + k) :=
    Words.ext fun k hk => by rw [hbytes k hk, Words.byte_ofBytes _ _ hk]
  rw [hdata]
  rfl

/-- Behind the ICMP checksum the reply repeats the request. -/
theorem replyBeat_tail {packet : List Beat} {index : Nat} {beat : Beat} (hindex : 5 ≤ index)
    (hbeat : packet[index]? = some beat) : replyBeat packet index beat = beat := by
  refine (eq_replyBeat beat ?_).symm
  intro k hk
  have hdiv : (8 * index + k) / 8 = index := by omega
  have hmod : (8 * index + k) % 8 = k := by omega
  have hbyte : packetByte packet (8 * index + k) = Words.byte beat.data k := by
    simp [packetByte, hdiv, hmod, hbeat]
  have hlate : 40 ≤ 8 * index + k := by omega
  rw [← hbyte]
  generalize 8 * index + k = position at hlate
  rw [replyByte, if_neg (by omega), if_neg (by omega), if_neg (by omega), if_neg (by omega),
    if_neg (by omega), if_neg (by omega), if_neg (by omega), if_neg (by omega), if_neg (by omega)]

/-- The folded register holds the sum of the reply's header, which is the sum of
the request's. -/
theorem chksumSum_reply (b0 b1 b2 b3 b4 : Beat) (rest : List Beat) :
    (chksumSum { b1 with data := macField.back b0.data b1.data } b2
      { b3 with data := ipField.front b3.data b4.data }
      { b4 with data := paramData 4#8 (ipField.back b3.data b4.data) }).toNat =
      headerSum (b0 :: b1 :: b2 :: b3 :: b4 :: rest) := by
  rw [chksumSum_toNat]
  simp [byteField, byte_macBack, byte_ipFront, byte_ipBack, byte_paramData, headerSum, packetField,
    packetByte]
  omega

/-- The checksum field of a beat. -/
theorem toNat_paramField (data : BitVec 64) :
    ((data >>> 16).setWidth 16).toNat = byteField data 4 := by
  have hmask : ∀ value, value &&& 65535 = value % 65536 :=
    fun value => Nat.and_two_pow_sub_one_eq_mod value 16
  rw [← word24_toNat _ 4 (by omega)]
  simp [word24, hmask]

/-- The ICMP checksum written to beat 4 is that of the reply. -/
theorem paramChksum_reply (b0 b1 b2 b3 b4 : Beat) (rest : List Beat) :
    (paramChksum ((ipField.back b3.data b4.data >>> 16).setWidth 16)).toNat =
      replyChksum (b0 :: b1 :: b2 :: b3 :: b4 :: rest) := by
  rw [paramChksum_toNat, toNat_paramField]
  simp [byteField, byte_ipBack, replyChksum, packetField, packetByte]

/-- The bytes of beat 3 with the checksum over the reply's header inserted. -/
theorem chksumInsert_reply (b0 b1 b2 b3 b4 : Beat) (rest : List Beat) (k : Nat) (hk : k < 8) :
    Words.byte (chksumInsert
        (chksumOf { b1 with data := macField.back b0.data b1.data } b2
          { b3 with data := ipField.front b3.data b4.data }
          { b4 with data := paramData 4#8 (ipField.back b3.data b4.data) })
        { b3 with data := ipField.front b3.data b4.data }).data k =
      replyByte (b0 :: b1 :: b2 :: b3 :: b4 :: rest) (8 * 3 + k) := by
  rw [byte_chksumInsert _ _ k hk, chksumOf_toNat, chksumSum_reply b0 b1 b2 b3 b4 rest]
  interval_cases k <;> simp [byte_ipFront, headerChksum, replyByte, packetByte]

/-- On five beats or more the components together make the reply. -/
theorem components_reply {packet : List Beat} (hlength : 5 ≤ packet.length) :
    chksumPacket (paramPacket (ipPacket (macPacket packet))) = reply packet := by
  obtain ⟨b0, b1, b2, b3, b4, rest, rfl⟩ := exists_five_beats hlength
  have htail : rest = rest.mapIdx fun index beat =>
      replyBeat (b0 :: b1 :: b2 :: b3 :: b4 :: rest) (index + 5) beat := by
    apply List.ext_getElem?
    intro index
    rw [List.getElem?_mapIdx]
    cases hbeat : rest[index]? with
    | none => rfl
    | some beat =>
        exact congrArg some (replyBeat_tail (by omega) (by simpa using hbeat)).symm
  simp only [macPacket, ipPacket, paramPacket, chksumPacket, reply, List.mapIdx_cons]
  refine List.cons_eq_cons.mpr ⟨eq_replyBeat b0 fun k hk => ?_, ?_⟩
  · interval_cases k <;> simp [byte_macFront, replyByte, packetByte]
  refine List.cons_eq_cons.mpr ⟨eq_replyBeat b1 fun k hk => ?_, ?_⟩
  · interval_cases k <;> simp [byte_macBack, replyByte, packetByte]
  refine List.cons_eq_cons.mpr ⟨eq_replyBeat b2 fun k hk => ?_, ?_⟩
  · interval_cases k <;> simp [replyByte, packetByte]
  refine List.cons_eq_cons.mpr ⟨eq_replyBeat b3 (chksumInsert_reply b0 b1 b2 b3 b4 rest), ?_⟩
  refine List.cons_eq_cons.mpr ⟨eq_replyBeat b4 fun k hk => ?_, ?_⟩
  · interval_cases k <;>
      simp [byte_paramData, byte_ipBack, paramChksum_reply b0 b1 b2 b3 b4 rest, replyByte,
        packetByte]
  exact htail

end IcmpServer.IcmpProc
