import IcmpServer.IcmpProc.HeaderChksum
import IcmpServer.IcmpProc.MessageSum
import IcmpServer.Server.Transmitted

/-! # Pings and pongs

What a ping is and what answers it, in the bytes of an Ethernet frame and without
regard to beats. The echo of a frame that carries a ping is a pong to it, byte by
byte, if the two converters leave its last bytes alone.
-/

namespace IcmpServer.Server

open Elastic Rtl Transmit Receive Words

/-! ## On the wire -/

/-- The bytes of a frame from `first` on. -/
def field (frame : List (BitVec 8)) (first count : Nat) : List (BitVec 8) :=
  (frame.drop first).take count

/-- Total length of the IPv4 packet. -/
def totalLength (frame : List (BitVec 8)) : Nat :=
  256 * (frame[16]?.getD 0#8).toNat + (frame[17]?.getD 0#8).toNat

/-- The ICMP message behind an IPv4 header without options. -/
def message (frame : List (BitVec 8)) : List (BitVec 8) :=
  field frame 34 (totalLength frame - 20)

/-- An ICMP message in an IPv4 packet. -/
def IsIcmp (frame : List (BitVec 8)) : Prop :=
  field frame 12 2 = [0x08#8, 0x00#8] ∧ field frame 23 1 = [0x01#8]

instance : DecidablePred IsIcmp :=
  fun frame => inferInstanceAs
    (Decidable (field frame 12 2 = [0x08#8, 0x00#8] ∧ field frame 23 1 = [0x01#8]))

/-- An echo request in an IPv4 packet without options, all of it within the frame. -/
structure IsPing (frame : List (BitVec 8)) : Prop where
  icmp : IsIcmp frame
  version : field frame 14 1 = [0x45#8]
  type : field frame 34 1 = [0x08#8]
  length : 28 ≤ totalLength frame
  inside : 14 + totalLength frame ≤ frame.length

/-- The sum of the IPv4 header without its checksum has no carry left when its carries
are added once. -/
def OneFold (frame : List (BitVec 8)) : Prop :=
  let sum := (wordsOf (field frame 14 10 ++ field frame 26 8)).sum
  sum % 0x10000 + sum / 0x10000 < 0x10000

instance : DecidablePred OneFold :=
  fun frame => inferInstanceAs (Decidable (
    (wordsOf (field frame 14 10 ++ field frame 26 8)).sum % 0x10000 +
      (wordsOf (field frame 14 10 ++ field frame 26 8)).sum / 0x10000 < 0x10000))

/-- The bytes that the converters clear are zero already. -/
def Intact (frame : List (BitVec 8)) : Prop :=
  ∀ k < 2 * (frame.length % 8) - 8, frame[8 * (frame.length / 8) + k]? = some 0#8

instance : DecidablePred Intact :=
  fun frame => inferInstanceAs
    (Decidable (∀ k < 2 * (frame.length % 8) - 8, frame[8 * (frame.length / 8) + k]? = some 0#8))

/-- The answer goes back where the ping came from and carries the same data. -/
structure IsPong (ping pong : List (BitVec 8)) : Prop where
  length : pong.length = ping.length
  dstMac : field pong 0 6 = field ping 6 6
  srcMac : field pong 6 6 = field ping 0 6
  header : field pong 12 12 = field ping 12 12
  srcIp : field pong 26 4 = field ping 30 4
  dstIp : field pong 30 4 = field ping 26 4
  headerChksum : OneFold ping → ChecksumValid (field pong 14 20)
  type : field pong 34 1 = [0x00#8]
  code : field pong 35 1 = field ping 35 1
  messageChksum : ChecksumValid (message ping) → ChecksumValid (message pong)
  data : pong.drop 38 = ping.drop 38

/-! ## Bytes of a field -/

theorem getElem?_field (frame : List (BitVec 8)) (first count index : Nat) :
    (field frame first count)[index]? = if index < count then frame[first + index]? else none := by
  rw [field, List.getElem?_take, List.getElem?_drop]

/-- A field is known by its bytes. -/
theorem field_congr {left right : List (BitVec 8)} {first first' count : Nat}
    (hbytes : ∀ index < count, left[first + index]? = right[first' + index]?) :
    field left first count = field right first' count := by
  apply List.ext_getElem?
  intro index
  rw [getElem?_field, getElem?_field]
  split_ifs with hindex
  · exact hbytes index hindex
  · rfl

theorem field_eq_map {frame : List (BitVec 8)} {first count : Nat} (byteAt : Nat → BitVec 8)
    (hbytes : ∀ index < count, frame[first + index]? = some (byteAt (first + index))) :
    field frame first count = (List.range count).map fun index => byteAt (first + index) := by
  apply List.ext_getElem?
  intro index
  rw [getElem?_field, List.getElem?_map]
  split_ifs with hindex
  · rw [hbytes index hindex, List.getElem?_range hindex]
    rfl
  · rw [List.getElem?_eq_none (by simpa using Nat.le_of_not_lt hindex)]
    rfl

/-! ## Checksums -/

/-- A number in two bytes. -/
theorem toNat_bytes {value : Nat} (hvalue : value < 65536) :
    256 * (BitVec.ofNat 8 (value / 256)).toNat + (BitVec.ofNat 8 value).toNat = value := by
  rw [BitVec.toNat_ofNat, BitVec.toNat_ofNat]
  omega

/-- The message of a frame is the one in its beats. -/
theorem checksumValid_field_iff {frame : List (BitVec 8)} {packet : List Beat} {len : Nat}
    (hbytes : ∀ k, 34 ≤ k → k < 34 + len → frame[k]? = some (IcmpProc.packetByte packet k)) :
    ChecksumValid (field frame 34 len) ↔ IcmpProc.MessageValid packet len := by
  have hfield : field frame 34 len =
      (List.range len).map fun index => IcmpProc.packetByte packet (34 + index) :=
    field_eq_map _ fun index hindex => hbytes _ (by omega) (by omega)
  have hwords : wordsOf (field frame 34 len) = IcmpProc.messageWords packet len := by
    rw [wordsOf_eq, hfield, List.length_map, List.length_range]
    apply List.map_congr_left
    intro word hword
    have hupper : 2 * word < len := by
      have hlt := List.mem_range.mp hword
      omega
    have hnext : 34 + (2 * word + 1) = 35 + 2 * word := by omega
    rw [IcmpProc.messageWord, List.getElem?_map, List.getElem?_map, List.getElem?_range hupper]
    split_ifs with hlower
    · rw [List.getElem?_range hlower, Option.map_some, Option.map_some, hnext]
      rfl
    · rw [List.getElem?_eq_none (by simpa using Nat.le_of_not_lt hlower)]
      rfl
  rw [ChecksumValid, IcmpProc.MessageValid, hwords]

/-! ## A frame with the bytes of the reply -/

/-- The headers of the reply are made of the headers of the packet. -/
theorem replyByte_congr {left right : List Beat}
    (hbytes : ∀ k < 40, IcmpProc.packetByte left k = IcmpProc.packetByte right k) {k : Nat}
    (hk : k < 40) : IcmpProc.replyByte left k = IcmpProc.replyByte right k := by
  have hfield : ∀ k < 39, IcmpProc.packetField left k = IcmpProc.packetField right k := by
    intro k hk
    rw [IcmpProc.packetField, IcmpProc.packetField, hbytes k (by omega), hbytes (k + 1) (by omega)]
  have hinside : ∀ k ∈ [14, 16, 18, 20, 22, 26, 28, 30, 32], k < 39 := by decide
  have hsum : IcmpProc.headerSum left = IcmpProc.headerSum right :=
    congrArg List.sum (List.map_congr_left fun k hmem => hfield k (hinside k hmem))
  have hheader : IcmpProc.headerChksum left = IcmpProc.headerChksum right := by
    rw [IcmpProc.headerChksum, IcmpProc.headerChksum, hsum]
  have hchksum : IcmpProc.replyChksum left = IcmpProc.replyChksum right := by
    rw [IcmpProc.replyChksum, IcmpProc.replyChksum, hfield 36 (by decide)]
  unfold IcmpProc.replyByte
  rw [hheader, hchksum]
  -- the branches of the reply in turn: those that read a byte read one of the headers
  refine ite_congr rfl (fun _ => hbytes _ (by omega)) fun _ => ?_
  refine ite_congr rfl (fun _ => hbytes _ (by omega)) fun _ => ?_
  refine ite_congr rfl (fun _ => rfl) fun _ => ?_
  refine ite_congr rfl (fun _ => rfl) fun _ => ?_
  refine ite_congr rfl (fun _ => hbytes _ (by omega)) fun _ => ?_
  refine ite_congr rfl (fun _ => hbytes _ (by omega)) fun _ => ?_
  refine ite_congr rfl (fun _ => rfl) fun _ => ?_
  refine ite_congr rfl (fun _ => rfl) fun _ => ?_
  exact ite_congr rfl (fun _ => rfl) fun _ => hbytes k hk

/-- The checksum of the reply is a sum in one's complement. -/
theorem replyChksum_eq (packet : List Beat) :
    IcmpProc.replyChksum packet = onesAdd 0xFFFF (IcmpProc.packetField packet 36) 0x0800 := by
  have hfield := IcmpProc.packetField_lt packet 36
  simp only [IcmpProc.replyChksum, onesAdd, foldCarry]
  split_ifs <;> omega

section Reply

variable {ping pong : List (BitVec 8)} {packet : List Beat}
  (hpong : ∀ k < 40, pong[k]? = some (IcmpProc.replyByte packet k))
include hpong

section Header

variable (hping : ∀ k < 40, ping[k]? = some (IcmpProc.packetByte packet k))
include hping

theorem field_moved {first first' count : Nat} (hend : first + count ≤ 40)
    (hend' : first' + count ≤ 40)
    (hmoved : ∀ index < count, IcmpProc.replyByte packet (first + index) =
      IcmpProc.packetByte packet (first' + index)) :
    field pong first count = field ping first' count := by
  apply field_congr
  intro index hindex
  rw [hpong _ (by omega), hping _ (by omega), hmoved index hindex]

/-- One fold is what the reply has of the header sum. -/
theorem headerChksum_valid (hfold : OneFold ping) : ChecksumValid (field pong 14 20) := by
  have hfields : wordsOf (field ping 14 10 ++ field ping 26 8) =
      [14, 16, 18, 20, 22, 26, 28, 30, 32].map (IcmpProc.packetField packet) := by
    rw [field_eq_map _ fun index hindex => hping _ (by omega),
      field_eq_map _ fun index hindex => hping _ (by omega)]
    rfl
  have hwords : wordsOf (field pong 14 20) =
      [14, 16, 18, 20, 22].map (IcmpProc.packetField packet) ++
        (256 * (BitVec.ofNat 8 (IcmpProc.headerChksum packet / 256)).toNat +
            (BitVec.ofNat 8 (IcmpProc.headerChksum packet)).toNat) ::
          [30, 32, 26, 28].map (IcmpProc.packetField packet) := by
    rw [field_eq_map _ fun index hindex => hpong _ (by omega)]
    rfl
  have hsum : (wordsOf (field pong 14 20)).sum =
      IcmpProc.headerSum packet + IcmpProc.headerChksum packet := by
    rw [hwords, toNat_bytes (IcmpProc.headerChksum_lt packet)]
    simp only [List.map_cons, List.map_nil, List.cons_append, List.nil_append, List.sum_cons,
      List.sum_nil, IcmpProc.headerSum]
    omega
  have hfolded : IcmpProc.headerSum packet % 0x10000 + IcmpProc.headerSum packet / 0x10000 <
      0x10000 := by
    rw [OneFold, hfields] at hfold
    exact hfold
  rw [ChecksumValid, onesSum_eq_ones_iff _ (wordsOf_le _) (by decide), hsum]
  refine ⟨(IcmpProc.completed_iff _ (IcmpProc.headerSum_lt packet)).mpr hfolded, ?_⟩
  rcases Nat.eq_zero_or_pos (IcmpProc.headerSum packet) with hzero | hpos
  · rw [IcmpProc.headerChksum, hzero]
    decide
  · exact Nat.add_pos_left hpos _

end Header

variable (hping : ∀ k < ping.length, ping[k]? = some (IcmpProc.packetByte packet k))
  (hdata : ∀ k, 40 ≤ k → pong[k]? = ping[k]?)
  (hlength : ping.length ≤ 2048) (hpacket : ping.length ≤ 8 * packet.length)
include hping hdata hlength hpacket

/-- The message of the reply is the one that `icmp_proc_param` makes. -/
theorem getElem?_pong_message {k : Nat} (hfirst : 34 ≤ k) (hk : k < ping.length) :
    pong[k]? = some (IcmpProc.packetByte (IcmpProc.paramEmitted packet) k) := by
  rw [IcmpProc.packetByte_paramEmitted packet (by omega), Nat.mod_eq_of_lt (by omega)]
  rcases Nat.lt_or_ge k 40 with hheader | hbehind
  · rw [hpong k hheader, IcmpProc.replyByte, replyChksum_eq]
    interval_cases k <;> rfl
  · rw [hdata k hbehind, hping k hk, if_neg (by omega), if_neg (by omega), if_neg (by omega)]

theorem messageChksum_valid (hbyte : ping[34]? = some 8#8) (hroom : 28 ≤ totalLength ping)
    (hinside : 14 + totalLength ping ≤ ping.length)
    (hvalid : ChecksumValid (message ping)) : ChecksumValid (message pong) := by
  have hsame : totalLength pong = totalLength ping := by
    rw [totalLength, totalLength, hpong 16 (by decide), hpong 17 (by decide),
      hping 16 (by omega), hping 17 (by omega)]
    rfl
  have htype : IcmpProc.packetByte packet 34 = 8#8 :=
    Option.some.inj ((hping 34 (by omega)).symm.trans hbyte)
  rw [message, checksumValid_field_iff fun k _ hk => hping k (by omega)] at hvalid
  rw [message, hsame, checksumValid_field_iff fun k hfirst hk =>
    getElem?_pong_message hpong hping hdata hlength hpacket hfirst (by omega)]
  refine (IcmpProc.validity_kept_iff (by omega) (by omega) htype).mpr (Or.inl ?_) |>.mpr hvalid
  rw [IcmpProc.drift_of_short _ (by omega)]
  exact dvd_zero _

theorem isPong (hsame : pong.length = ping.length) (hframe : IsPing ping) :
    IsPong ping pong := by
  have hroom := hframe.length
  have hinside := hframe.inside
  have hheader : ∀ k < 40, ping[k]? = some (IcmpProc.packetByte packet k) :=
    fun k hk => hping k (by omega)
  have hbyte : ping[34]? = some 8#8 := by
    have hfirst := congrArg (·[0]?) hframe.type
    rwa [getElem?_field, if_pos Nat.one_pos] at hfirst
  exact {
    length := hsame
    dstMac := field_moved hpong hheader (by decide) (by decide) fun index hindex => by
      interval_cases index <;> rfl
    srcMac := field_moved hpong hheader (by decide) (by decide) fun index hindex => by
      interval_cases index <;> rfl
    header := field_moved hpong hheader (by decide) (by decide) fun index hindex => by
      interval_cases index <;> rfl
    srcIp := field_moved hpong hheader (by decide) (by decide) fun index hindex => by
      interval_cases index <;> rfl
    dstIp := field_moved hpong hheader (by decide) (by decide) fun index hindex => by
      interval_cases index <;> rfl
    headerChksum := headerChksum_valid hpong hheader
    type := field_eq_map _ fun index hindex => hpong _ (by omega)
    code := field_moved hpong hheader (by decide) (by decide) fun index hindex => by
      obtain rfl := Nat.lt_one_iff.mp hindex
      rfl
    messageChksum :=
      messageChksum_valid hpong hping hdata hlength hpacket hbyte hroom hinside
    data := by
      apply List.ext_getElem?
      intro index
      rw [List.getElem?_drop, List.getElem?_drop]
      rcases Nat.lt_or_ge index 2 with hhead | htail
      · rw [hpong _ (by omega), hheader _ (by omega)]
        interval_cases index <;> rfl
      · exact hdata _ (by omega) }

end Reply

/-! ## The echo of a frame -/

/-- A beat with the data that it has on the wire. -/
def wireBeat (beat : L8Beat) : Beat :=
  ⟨beat.data, 0#8, 0#8, 0#8⟩

/-- The markers that leave the server are those that came in. -/
theorem onWire_markers {beat : Beat} {source : L8Beat}
    (hmarkers : IcmpProc.markers beat = IcmpProc.markers (fromWire source)) :
    (onWire beat).startofpacket = source.startofpacket ∧
      (onWire beat).endofpacket = source.endofpacket ∧ (onWire beat).empty = source.empty := by
  obtain ⟨hsop, heop, hempty⟩ : beat.sop = (fromWire source).sop ∧
      beat.eop = (fromWire source).eop ∧ beat.empty = (fromWire source).empty := by
    simpa only [IcmpProc.markers, Prod.mk.injEq] using hmarkers
  refine ⟨?_, ?_, ?_⟩
  · change beat.sop.getLsbD 0 = _
    rw [hsop, (markers_fromWire source).1]
    cases source.startofpacket <;> rfl
  · change beat.eop.getLsbD 0 = _
    rw [heop, (markers_fromWire source).2.1]
    cases source.endofpacket <;> rfl
  · change beat.empty.extractLsb' 0 3 = _
    rw [hempty, (markers_fromWire source).2.2, ← BitVec.setWidth_eq_extractLsb' (by decide),
      BitVec.setWidth_setWidth_of_le _ (by decide), BitVec.setWidth_eq]

theorem onWire_fromWire (beat : L8Beat) : onWire (fromWire beat) = roundTrip beat :=
  (convert_eq _).symm

theorem replyBeat_markers (packet : List Beat) (index : Nat) (source : L8Beat) :
    IcmpProc.markers (IcmpProc.replyBeat packet index (fromWire source)) =
      IcmpProc.markers (fromWire source) := rfl

section Echo

variable {frame : List (BitVec 8)} {wire : List L8Beat} (hcarries : Carries frame wire)
  (hlength : 42 ≤ frame.length ∧ frame.length ≤ 2048)
include hcarries hlength

theorem wire_length : 6 ≤ wire.length ∧ wire.length ≤ 256 := by
  have hbeats := hcarries.length
  omega

theorem echoed_wire :
    ¬ IcmpProc.Wedges (wire.map fromWire) ∧
      IcmpProc.echoed (wire.map fromWire) = IcmpProc.reply (wire.map fromWire) := by
  obtain ⟨hsix, hmost⟩ := wire_length hcarries hlength
  have hsame : (wire.map fromWire).length = wire.length := List.length_map _
  constructor
  · rintro (hone | hfour) <;> omega
  · rw [IcmpProc.echoed, if_neg (by omega), if_neg (by omega), if_pos (by omega),
      IcmpProc.echoPacket, IcmpProc.components_reply (by omega)]

/-- The echo on the wire, beat by beat. -/
theorem getElem?_echo (index : Nat) :
    ((IcmpProc.echoed (wire.map fromWire)).map onWire)[index]? =
      wire[index]?.map fun source =>
        onWire (IcmpProc.replyBeat (wire.map fromWire) index (fromWire source)) := by
  rw [(echoed_wire hcarries hlength).2, IcmpProc.reply, List.getElem?_map, List.getElem?_mapIdx,
    List.getElem?_map, Option.map_map, Option.map_map]
  rfl

/-- In front of the last beat the bytes are those of the reply. -/
theorem wireByte_echo_header {k : Nat} (hk : k < 40) :
    wireByte ((IcmpProc.echoed (wire.map fromWire)).map onWire) k =
      some (IcmpProc.replyByte (wire.map fromWire) k) := by
  obtain ⟨hsix, -⟩ := wire_length hcarries hlength
  have hbeat := List.getElem?_eq_getElem (show k / 8 < wire.length by omega)
  have hend := hcarries.endofpacket _ _ hbeat
  rw [decide_eq_false (by omega)] at hend
  have hmore := (onWire_markers (replyBeat_markers (wire.map fromWire) (k / 8) wire[k / 8])).2.1
  have hsplit : 8 * (k / 8) + k % 8 = k := Nat.div_add_mod k 8
  rw [wireByte, getElem?_echo hcarries hlength, hbeat, Option.map_some, Option.map_some,
    data_onWire (hmore.trans hend), IcmpProc.replyBeat, byte_ofBytes _ _ (Nat.mod_lt k (by decide)),
    hsplit]

/-- Behind the headers the bytes are those that the converters leave. -/
theorem wireByte_echo_data {k : Nat} (hk : 40 ≤ k) :
    wireByte ((IcmpProc.echoed (wire.map fromWire)).map onWire) k =
      wireByte (wire.map roundTrip) k := by
  obtain ⟨hsix, hmost⟩ := wire_length hcarries hlength
  have hsame : (wire.map fromWire).length = wire.length := List.length_map _
  have hbeat : (IcmpProc.echoed (wire.map fromWire))[k / 8]? = (wire.map fromWire)[k / 8]? := by
    rw [IcmpProc.echoed, if_neg (by omega), if_neg (by omega), if_pos (by omega),
      IcmpProc.getElem?_echoPacket (by omega)]
  rw [wireByte, wireByte, List.getElem?_map, hbeat, List.getElem?_map, List.getElem?_map]
  cases wire[k / 8]? with
  | none => rfl
  | some beat =>
      exact congrArg (fun passed => some (byte passed.data (k % 8))) (onWire_fromWire beat)

end Echo

/-! ## The answer -/

/-- The first `count` bytes in beats. -/
def wireBytes (count : Nat) (beats : List L8Beat) : List (BitVec 8) :=
  (List.range count).map fun k => (wireByte beats k).getD 0#8

@[simp] theorem length_wireBytes (count : Nat) (beats : List L8Beat) :
    (wireBytes count beats).length = count := by
  rw [wireBytes, List.length_map, List.length_range]

theorem getElem?_wireBytes {count : Nat} {beats : List L8Beat} (hbeats : count ≤ 8 * beats.length)
    {k : Nat} (hk : k < count) : (wireBytes count beats)[k]? = wireByte beats k := by
  have hbeat := List.getElem?_eq_getElem (show k / 8 < beats.length by omega)
  rw [wireBytes, List.getElem?_map, List.getElem?_range hk, Option.map_some, wireByte, hbeat]
  rfl

/-- Beats with the markers of those that carry a frame carry a frame of the same length. -/
theorem carries_wireBytes {frame : List (BitVec 8)} {wire echo : List L8Beat}
    (hcarries : Carries frame wire) (hlength : echo.length = wire.length)
    (hmarkers : ∀ (index : Nat) (beat : L8Beat), echo[index]? = some beat →
      ∃ source : L8Beat, wire[index]? = some source ∧
        beat.startofpacket = source.startofpacket ∧ beat.endofpacket = source.endofpacket ∧
        beat.empty = source.empty) :
    Carries (wireBytes frame.length echo) echo := by
  have hbeats := hcarries.length
  constructor
  · rw [length_wireBytes, hlength, hbeats]
  · intro index beat hbeat
    obtain ⟨source, hsource, hstart, -⟩ := hmarkers index beat hbeat
    exact hstart.trans (hcarries.startofpacket index source hsource)
  · intro index beat hbeat
    obtain ⟨source, hsource, -, hend, -⟩ := hmarkers index beat hbeat
    rw [hend, hcarries.endofpacket index source hsource, hlength]
  · intro beat hbeat
    rw [List.getLast?_eq_getElem?, hlength] at hbeat
    obtain ⟨source, hsource, -, -, hempty⟩ := hmarkers _ beat hbeat
    rw [hempty, hcarries.empty source (by rw [List.getLast?_eq_getElem?, hsource]), hlength,
      length_wireBytes]
  · intro k hk
    rw [length_wireBytes] at hk
    exact (getElem?_wireBytes (by omega) hk).symm

section Answer

variable {frame : List (BitVec 8)} {wire : List L8Beat} (hcarries : Carries frame wire)
  (hlength : 42 ≤ frame.length ∧ frame.length ≤ 2048)
include hcarries hlength

theorem length_echo :
    ((IcmpProc.echoed (wire.map fromWire)).map onWire).length = wire.length := by
  rw [List.length_map, IcmpProc.length_echoed_of_passes (echoed_wire hcarries hlength).1,
    List.length_map]

/-- The echo of a ping is a pong, when the converters leave its last bytes alone. -/
theorem echo_isPong (hframe : IsPing frame) (hintact : Intact frame) :
    IsPong frame
      (wireBytes frame.length ((IcmpProc.echoed (wire.map fromWire)).map onWire)) := by
  have hbeats := hcarries.length
  have hecho := length_echo hcarries hlength
  -- the bytes in the beats as they are on the wire
  have hping : ∀ k < frame.length,
      frame[k]? = some (IcmpProc.packetByte (wire.map wireBeat) k) := by
    intro k hk
    have hbeat := List.getElem?_eq_getElem (show k / 8 < wire.length by omega)
    rw [← hcarries.bytes k hk, wireByte, IcmpProc.packetByte, List.getElem?_map, hbeat]
    rfl
  have hheader : ∀ k < 40, IcmpProc.packetByte (wire.map fromWire) k =
      IcmpProc.packetByte (wire.map wireBeat) k := by
    intro k hk
    exact Option.some.inj ((packetByte_fromWire hcarries (by omega) (by omega)).symm.trans
      (hping k (by omega)))
  refine isPong ?_ hping ?_ hlength.2 ?_ (length_wireBytes _ _) hframe
  · intro k hk
    rw [getElem?_wireBytes (by omega) (by omega), wireByte_echo_header hcarries hlength hk,
      replyByte_congr hheader hk]
  · intro k hk
    rcases Nat.lt_or_ge k frame.length with hinside | hbehind
    · rw [getElem?_wireBytes (by omega) hinside, wireByte_echo_data hcarries hlength hk,
        wireByte_roundTrip hcarries k hinside]
      split_ifs with hcleared
      · have hzero := hintact (k - 8 * (frame.length / 8)) (by omega)
        rw [Nat.add_sub_cancel' hcleared.1] at hzero
        exact hzero.symm
      · rfl
    · rw [List.getElem?_eq_none hbehind, List.getElem?_eq_none (by simpa using hbehind)]
  · rw [List.length_map]
    omega

/-- The beats of the echo carry a frame as long. -/
theorem echo_carries :
    Carries (wireBytes frame.length ((IcmpProc.echoed (wire.map fromWire)).map onWire))
      ((IcmpProc.echoed (wire.map fromWire)).map onWire) := by
  apply carries_wireBytes hcarries (length_echo hcarries hlength)
  intro index beat hbeat
  rw [getElem?_echo hcarries hlength, Option.map_eq_some_iff] at hbeat
  obtain ⟨source, hsource, rfl⟩ := hbeat
  exact ⟨source, hsource, onWire_markers (replyBeat_markers _ index source)⟩

end Answer

end IcmpServer.Server
