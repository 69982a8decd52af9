import IcmpServer.ArpProc.Arrivals
import IcmpServer.Transmit.ArpFrames

/-! # ARP packets with and without padding

`l8_to_ulong2` moves the bytes of a last beat to the low end of the word, and
`arp_proc` reads bytes 40 and 41 at the high end of the sixth beat. That beat is the
last one of a packet that has not been padded.
-/

namespace IcmpServer.Receive

open Elastic Words ArpProc Rtl Transmit

/-! ## Through the converter -/

/-- A beat as `arp_proc` gets it. -/
def fromWire (beat : L8Beat) : Beat :=
  unpack (l8ToUlong2.convert beat)

theorem data_fromWire (beat : L8Beat) :
    (fromWire beat).data = l8ToUlong2Remainder beat.endofpacket beat.empty beat.data :=
  congrArg L8Beat.data (inBeat_outData (l8ToUlong2.nextStage0 beat))

/-- The markers of a beat behind `l8_to_ulong2`, a byte for each. -/
theorem markers_fromWire (beat : L8Beat) :
    (fromWire beat).sop = (BitVec.ofBool beat.startofpacket).setWidth 8 ∧
      (fromWire beat).eop = (BitVec.ofBool beat.endofpacket).setWidth 8 ∧
      (fromWire beat).empty = beat.empty.setWidth 8 := by
  have hword : ∀ bit, (l8ToUlong2.convert beat).getLsbD bit =
      BitVec.getLsbD (w := 40 + 5 + 3 + 7 + 1 + 7 + 1 + 64)
        (0#40 ++ 0#5 ++ beat.empty ++ 0#7 ++ BitVec.ofBool beat.endofpacket ++ 0#7 ++
          BitVec.ofBool beat.startofpacket ++ (l8ToUlong2.nextStage0 beat).data) bit := fun _ => rfl
  refine ⟨?_, ?_, ?_⟩ <;>
  · apply BitVec.eq_of_getLsbD_eq
    intro bit hbit
    simp only [fromWire, unpack, BitVec.getLsbD_extractLsb', hword, BitVec.getLsbD_append]
    interval_cases bit <;> simp

/-- The input is a packet that the MAC has sent to `l8_to_ulong2`, anywhere in its
stream. -/
def Through (bytes : List (BitVec 8)) (input : List Beat) : Prop :=
  ∃ (cycles : List (Rtl.Cycle L8Beat)) (before packet : List L8Beat), Carries bytes packet ∧
    before ++ packet <+: (l8ToUlong2.run cycles).accepted ∧
    before.length + packet.length ≤ (l8ToUlong2.run cycles).transferred.length ∧
    input = (((l8ToUlong2.run cycles).transferred.drop before.length).take packet.length).map
      unpack

theorem Through.exists_carries {bytes : List (BitVec 8)} {input : List Beat}
    (hthrough : Through bytes input) :
    ∃ packet, Carries bytes packet ∧ input = packet.map fromWire := by
  obtain ⟨cycles, before, packet, hcarries, ⟨rest, haccepted⟩, hlength, rfl⟩ := hthrough
  refine ⟨packet, hcarries, ?_⟩
  have htransferred := (run_accounted l8ToUlong2 cycles).lossless.transferred
  rw [window_of_isPrefix htransferred hlength, ← haccepted, List.append_assoc, List.map_append,
    List.drop_left' (List.length_map _), List.map_append, List.take_left' (List.length_map _),
    List.map_map]
  rfl

/-- `sop` is on the first beat and on no other. -/
theorem Through.sop {bytes : List (BitVec 8)} {input : List Beat} (hthrough : Through bytes input)
    {index : Nat} {beat : Beat} (hbeat : input[index]? = some beat) :
    beat.sop = (BitVec.ofBool (decide (index = 0))).setWidth 8 := by
  obtain ⟨packet, hcarries, rfl⟩ := hthrough.exists_carries
  rw [List.getElem?_map, Option.map_eq_some_iff] at hbeat
  obtain ⟨wire, hwire, rfl⟩ := hbeat
  rw [(markers_fromWire wire).1, hcarries.startofpacket index wire hwire]

section Bytes

variable {bytes : List (BitVec 8)} {packet : List L8Beat} (hcarries : Carries bytes packet)
include hcarries

/-- Beats before the last one keep their bytes. -/
theorem packetByte_fromWire {k : Nat} (hk : k < bytes.length) (hmore : k / 8 + 1 < packet.length) :
    bytes[k]? = some (IcmpProc.packetByte (packet.map fromWire) k) := by
  have hbeat := List.getElem?_eq_getElem (Nat.lt_of_succ_lt hmore)
  have hend := hcarries.endofpacket _ _ hbeat
  rw [decide_eq_false (Nat.ne_of_lt hmore)] at hend
  rw [← hcarries.bytes k hk, wireByte, IcmpProc.packetByte, List.getElem?_map, hbeat]
  simp only [Option.map_some, data_fromWire, hend, l8ToUlong2Remainder, Bool.false_eq_true,
    if_false]

/-- The last beat begins with as many zeros as there are bytes missing. -/
theorem packetByte_fromWire_last {k : Nat} (hlast : k / 8 + 1 = packet.length)
    (hunused : k % 8 < 8 * packet.length - bytes.length) :
    IcmpProc.packetByte (packet.map fromWire) k = 0#8 := by
  have hinside : k / 8 < packet.length := by omega
  have hbeat := List.getElem?_eq_getElem hinside
  have hend := hcarries.endofpacket _ _ hbeat
  rw [decide_eq_true hlast] at hend
  have hempty := hcarries.empty packet[k / 8] (by
    rw [List.getLast?_eq_getElem?, ← hlast, Nat.add_sub_cancel, hbeat])
  rw [IcmpProc.packetByte, List.getElem?_map, hbeat]
  simp only [Option.map_some, data_fromWire, hend]
  rw [l8ToUlong2Remainder_eq, byte_shiftRight _ _ _ (by omega) (by omega), if_neg (by omega)]

end Bytes

/-! ## The body of a packet -/

/-- The fields that `arp_proc` reads at their places. -/
def fieldsAt (byteAt : Nat → BitVec 8) : Received where
  arpOp := byteAt 21
  srcMac := byteAt 22 ++ byteAt 23 ++ byteAt 24 ++ byteAt 25 ++ byteAt 26 ++ byteAt 27
  srcIp := byteAt 28 ++ byteAt 29 ++ byteAt 30 ++ byteAt 31
  dstIp := byteAt 38 ++ byteAt 39 ++ byteAt 40 ++ byteAt 41

theorem fieldsAt_congr {byteAt byteAt' : Nat → BitVec 8} (hbytes : ∀ k < 42, byteAt k = byteAt' k) :
    fieldsAt byteAt = fieldsAt byteAt' := by
  have hread : ∀ k, k < 42 → byteAt k = byteAt' k := hbytes
  simp only [fieldsAt, hread, Nat.reduceLT]

/-- Byte `k` of the body of an ARP packet. -/
def bodyByte (body : Vector (BitVec 8) 42) (k : Nat) : BitVec 8 :=
  body.toList[k]?.getD 0#8

/-- The bytes of a packet that has not been padded, with zeros for the two of the
last beat. -/
def unpaddedByte (body : Vector (BitVec 8) 42) (k : Nat) : BitVec 8 :=
  if k < 40 then bodyByte body k else 0#8

/-- The packet as the MAC pads it to 60 bytes. -/
def paddedBody (body : Vector (BitVec 8) 42) : List (BitVec 8) :=
  body.toList ++ List.replicate 18 0#8

section Body

variable {body : Vector (BitVec 8) 42} {short long : List Beat}

theorem unpadded_bytes (hshort : Through body.toList short) :
    short.length = 6 ∧ ∀ k < 42, IcmpProc.packetByte short k = unpaddedByte body k := by
  obtain ⟨packet, hcarries, rfl⟩ := hshort.exists_carries
  have hbody : body.toList.length = 42 := by simp
  have hlength : packet.length = 6 := by rw [hcarries.length, hbody]
  refine ⟨by rw [List.length_map, hlength], ?_⟩
  intro k hk
  rw [unpaddedByte]
  split_ifs with hmore
  · rw [bodyByte, packetByte_fromWire hcarries (by omega) (by omega), Option.getD_some]
  · exact packetByte_fromWire_last hcarries (by omega) (by omega)

theorem padded_bytes (hlong : Through (paddedBody body) long) :
    long.length = 8 ∧ ∀ k < 42, IcmpProc.packetByte long k = bodyByte body k := by
  obtain ⟨packet, hcarries, rfl⟩ := hlong.exists_carries
  have hbody : body.toList.length = 42 := by simp
  have hpadded : (paddedBody body).length = 60 := by simp [paddedBody]
  have hlength : packet.length = 8 := by rw [hcarries.length, hpadded]
  refine ⟨by rw [List.length_map, hlength], ?_⟩
  intro k hk
  have hbyte := packetByte_fromWire hcarries (k := k) (by omega) (by omega)
  rw [paddedBody, List.getElem?_append_left (by omega)] at hbyte
  rw [bodyByte, hbyte, Option.getD_some]

/-- The first five beats agree in all that is read of them. -/
theorem first_beats (hshort : Through body.toList short)
    (hlong : Through (paddedBody body) long) :
    (short.take 5).map plain = (long.take 5).map plain := by
  obtain ⟨hshortLength, hshortBytes⟩ := unpadded_bytes hshort
  obtain ⟨hlongLength, hlongBytes⟩ := padded_bytes hlong
  apply List.ext_getElem (by simp [hshortLength, hlongLength])
  intro index hindex _
  have hfive : index < 5 := by simpa [hshortLength] using hindex
  have hshortBeat : short[index]? = some short[index] := List.getElem?_eq_getElem (by omega)
  have hlongBeat : long[index]? = some long[index] := List.getElem?_eq_getElem (by omega)
  have hdata : short[index].data = long[index].data := by
    apply Words.ext
    intro offset hoffset
    have hk : (8 * index + offset) / 8 = index ∧ (8 * index + offset) % 8 = offset := by omega
    have hsame : IcmpProc.packetByte short (8 * index + offset) =
        IcmpProc.packetByte long (8 * index + offset) := by
      rw [hshortBytes _ (by omega), hlongBytes _ (by omega), unpaddedByte, if_pos (by omega)]
    simpa [IcmpProc.packetByte, hk, hshortBeat, hlongBeat] using hsame
  simp only [List.getElem_map, List.getElem_take, plain, hdata, hshort.sop hshortBeat,
    hlong.sop hlongBeat]

end Body

/-! ## The decision -/

variable (addresses : Addresses)

/-- The decision does not depend on which of the two target addresses is read: no
request is evaluated, or they are the same, or neither of them makes a difference. -/
def Tolerates (recv : Received) (dstIp : BitVec 32) (outSendArpRpyStdby : Bool) : Prop :=
  recv.arpOp ≠ 0x01#8 ∨ recv.dstIp = dstIp ∨
    (outSendArpRpyStdby = true ∨ recv.dstIp ≠ addresses.ownIp ∧ dstIp ≠ addresses.ownIp) ∧
      (recv.srcIp ≠ addresses.gtwIp ∨
        recv.dstIp ≠ addresses.gtwIp ∧ dstIp ≠ addresses.gtwIp)

theorem decision_eq_iff (recv : Received) (dstIp : BitVec 32) (outSendArpRpyStdby : Bool) :
    decision addresses { recv with dstIp } outSendArpRpyStdby =
        decision addresses recv outSendArpRpyStdby ↔
      Tolerates addresses recv dstIp outSendArpRpyStdby := by
  by_cases hop : recv.arpOp = 0x01#8
  · -- two target addresses never match the same address of the configuration
    simp only [Tolerates, decision, if_pos hop]
    grind
  · simp [Tolerates, decision, hop]

/-- The decision on the packet in the receive stages. -/
def decided (state : ArpState) : Option Decision :=
  (evaluated state).map fun recv => decision addresses recv state.outSendArpRpyStdby

/-- The same decision is taken, and the same addresses are stored. -/
def Agree (left right : Config) (call : Call) : Prop :=
  decided addresses left.state = decided addresses right.state ∧
    (step addresses left call).state.learned = (step addresses right call).state.learned

/-- Configurations that evaluate the same packet but for its target address agree
when the decision does not depend on it. -/
theorem agree_iff {left right : Config} {recv : Received} {dstIp : BitVec 32} (call : Call)
    (hleft : evaluated left.state = some { recv with dstIp })
    (hright : evaluated right.state = some recv)
    (hlearned : left.state.learned = right.state.learned)
    (hstdby : left.state.outSendArpRpyStdby = right.state.outSendArpRpyStdby) :
    Agree addresses left right call ↔
      Tolerates addresses recv dstIp right.state.outSendArpRpyStdby := by
  rw [Agree, decided, decided, hleft, hright, Option.map_some, Option.map_some,
    Option.some.injEq, hstdby, decision_eq_iff]
  refine and_iff_left_of_imp ?_
  intro htolerates
  rw [step_learned, step_learned, hleft, hright, Option.elim_some, Option.elim_some, hlearned,
    hstdby, (decision_eq_iff addresses recv dstIp _).mpr htolerates]
  cases decision addresses recv right.state.outSendArpRpyStdby <;> rfl

/-- On arrival the packet is evaluated by its own bytes. -/
theorem Through.evaluated {bytes : List (BitVec 8)} {packet : List Beat}
    (hpacket : Through bytes packet) (hlength : 6 ≤ packet.length) (rest : List Beat)
    (config : Config) {front : List Call} (hfront : deliveries front = 5) {reading : Call}
    (hreading : reading.deliver = true) :
    evaluated (arrived addresses config (packet ++ rest) front reading).state =
      some (fieldsAt (IcmpProc.packetByte packet)) := by
  refine Eq.trans ?_ (packetReceived_eq hlength rest)
  cases packet with
  | nil => simp at hlength
  | cons first others =>
      have hsop : first.sop = 1#8 := hpacket.sop (List.getElem?_cons_zero)
      rw [List.cons_append]
      refine arrived_evaluated addresses config hfront hreading (by simp [Beat.first, hsop]) ?_
      rw [← List.cons_append, List.length_append]
      omega

/-! ## The guarantee -/

/-- The body of an ARP packet leads to the same decision with and without padding,
from every state and whatever follows, exactly when its target address may be read
with zeros in its last two bytes. -/
theorem padding_agrees_iff (body : Vector (BitVec 8) 42) (short long behind behind' : List Beat)
    (hshort : Through body.toList short) (hlong : Through (paddedBody body) long)
    (config : Config) (front : List Call) (hfront : deliveries front = 5) (reading call : Call)
    (hreading : reading.deliver = true) :
    Agree addresses (arrived addresses config (short ++ behind) front reading)
        (arrived addresses config (long ++ behind') front reading) call ↔
      Tolerates addresses (fieldsAt (bodyByte body)) (fieldsAt (unpaddedByte body)).dstIp
        (arrived addresses config (long ++ behind') front reading).state.outSendArpRpyStdby := by
  obtain ⟨hshortLength, hshortBytes⟩ := unpadded_bytes hshort
  obtain ⟨hlongLength, hlongBytes⟩ := padded_bytes hlong
  have hleft := hshort.evaluated addresses (by omega) behind config hfront hreading
  have hright := hlong.evaluated addresses (by omega) behind' config hfront hreading
  rw [fieldsAt_congr hshortBytes] at hleft
  rw [fieldsAt_congr hlongBytes] at hright
  have hcommon : (short.take 5).length = 5 := by simp [hshortLength]
  obtain ⟨hlearned, hstdby⟩ := arrived_same addresses config reading hfront hcommon
    (first_beats hshort hlong) (short.drop 5 ++ behind) (long.drop 5 ++ behind')
  simp only [← List.append_assoc, List.take_append_drop] at hlearned hstdby
  exact agree_iff addresses call hleft hright hlearned hstdby

/-! ## Two bodies -/

/-- The beats in which the MAC sends a packet. -/
def wireBeats (bytes : List (BitVec 8)) : List L8Beat :=
  (List.range ((bytes.length + 7) / 8)).map fun index =>
    { data := ofBytes fun offset => bytes[8 * index + offset]?.getD 0#8
      startofpacket := decide (index = 0)
      endofpacket := decide (index + 1 = (bytes.length + 7) / 8)
      empty := BitVec.ofNat 3 (8 * ((bytes.length + 7) / 8) - bytes.length) }

theorem wireBeats_carries (bytes : List (BitVec 8)) : Carries bytes (wireBeats bytes) := by
  have hlength : (wireBeats bytes).length = (bytes.length + 7) / 8 := by simp [wireBeats]
  have hbeats : ∀ index beat, (wireBeats bytes)[index]? = some beat →
      beat.startofpacket = decide (index = 0) ∧
        beat.endofpacket = decide (index + 1 = (wireBeats bytes).length) ∧
        beat.empty.toNat = 8 * (wireBeats bytes).length - bytes.length := by
    intro index beat hbeat
    rw [hlength]
    rw [wireBeats, List.getElem?_map, Option.map_eq_some_iff] at hbeat
    obtain ⟨position, hposition, rfl⟩ := hbeat
    obtain ⟨-, rfl⟩ := List.getElem?_eq_some_iff.mp hposition
    refine ⟨by simp, by simp, ?_⟩
    rw [BitVec.toNat_ofNat, Nat.mod_eq_of_lt (by omega)]
  refine ⟨hlength, fun index beat hbeat => (hbeats index beat hbeat).1,
    fun index beat hbeat => (hbeats index beat hbeat).2.1, ?_, ?_⟩
  · intro beat hbeat
    rw [List.getLast?_eq_getElem?] at hbeat
    exact (hbeats _ beat hbeat).2.2
  · intro k hk
    have hposition : (List.range ((bytes.length + 7) / 8))[k / 8]? = some (k / 8) := by
      rw [List.getElem?_range (by omega)]
    rw [wireByte, wireBeats, List.getElem?_map, hposition, Option.map_some, Option.map_some,
      byte_ofBytes _ _ (Nat.mod_lt _ (by decide)), Nat.div_add_mod, List.getElem?_eq_getElem hk,
      Option.getD_some]

/-- The beats one a cycle, and cycles enough to pass them on. -/
def wireCycles (bytes : List (BitVec 8)) : List (Rtl.Cycle L8Beat) :=
  ⟨⟨0#64, false, false, 0#3⟩, false, true⟩ :: (wireBeats bytes).map (⟨·, true, true⟩) ++
    List.replicate 4 ⟨⟨0#64, false, false, 0#3⟩, false, true⟩

/-- What comes out of `l8_to_ulong2`. -/
def wireInput (bytes : List (BitVec 8)) : List Beat :=
  (l8ToUlong2.run (wireCycles bytes)).transferred.map unpack

/-- The packet comes through when every beat has been passed on. -/
theorem through_wireInput {bytes : List (BitVec 8)}
    (haccepted : (l8ToUlong2.run (wireCycles bytes)).accepted = wireBeats bytes)
    (hlength : (l8ToUlong2.run (wireCycles bytes)).transferred.length = (wireBeats bytes).length) :
    Through bytes (wireInput bytes) := by
  refine ⟨wireCycles bytes, [], wireBeats bytes, wireBeats_carries bytes, ?_, ?_, ?_⟩
  · rw [haccepted]
    exact List.prefix_rfl
  · rw [hlength]
    simp
  · rw [← hlength, List.length_nil, List.drop_zero, List.take_length, wireInput]

/-- A reply of the gateway 192.168.2.1. -/
def gatewayReply : Vector (BitVec 8) 42 :=
  #v[0x06#8, 0x00#8, 0x00#8, 0x00#8, 0x00#8, 0x00#8, 0x06#8, 0x00#8, 0x00#8, 0x00#8, 0x00#8, 0x01#8,
    0x08#8, 0x06#8, 0x00#8, 0x01#8, 0x08#8, 0x00#8, 0x06#8, 0x04#8, 0x00#8, 0x02#8,
    0x06#8, 0x00#8, 0x00#8, 0x00#8, 0x00#8, 0x01#8, 192#8, 168#8, 2#8, 1#8,
    0x06#8, 0x00#8, 0x00#8, 0x00#8, 0x00#8, 0x00#8, 192#8, 168#8, 2#8, 100#8]

/-- A request of the gateway for 192.168.2.100. -/
def ownRequest : Vector (BitVec 8) 42 :=
  gatewayReply.set 21 0x01#8

/-- The body without and with padding in the receive stages of `arp_proc`. -/
def AgreesAlone (body : Vector (BitVec 8) 42) : Prop :=
  Agree .default
    (arrived .default (start [] []) (wireInput body.toList ++ []) (List.replicate 5 served) served)
    (arrived .default (start [] []) (wireInput (paddedBody body) ++ []) (List.replicate 5 served)
      served)
    served

theorem padding_agrees_gatewayReply :
    Through gatewayReply.toList (wireInput gatewayReply.toList) ∧
      Through (paddedBody gatewayReply) (wireInput (paddedBody gatewayReply)) ∧
      AgreesAlone gatewayReply := by
  have hshort : Through gatewayReply.toList (wireInput gatewayReply.toList) :=
    through_wireInput (by decide) (by decide)
  have hlong : Through (paddedBody gatewayReply) (wireInput (paddedBody gatewayReply)) :=
    through_wireInput (by decide) (by decide)
  refine ⟨hshort, hlong, ?_⟩
  apply (padding_agrees_iff .default gatewayReply _ _ [] [] hshort hlong (start [] [])
    (List.replicate 5 served) (by decide) served served rfl).mpr
  exact Or.inl (by decide)

/-- The request is answered when it is padded and ignored when it is not. -/
theorem padding_disagrees_ownRequest :
    Through ownRequest.toList (wireInput ownRequest.toList) ∧
      Through (paddedBody ownRequest) (wireInput (paddedBody ownRequest)) ∧
      ¬ AgreesAlone ownRequest := by
  refine ⟨through_wireInput (by decide) (by decide), through_wireInput (by decide) (by decide), ?_⟩
  unfold AgreesAlone Agree
  decide

end IcmpServer.Receive
