import IcmpServer.ArpProc.Coherence
import IcmpServer.Rtl.Lossless
import IcmpServer.Rtl.RoundTrip
import IcmpServer.TxMerge.Merging
import Mathlib.Tactic.Choose

/-! # ARP frames on the packet output

`arp_proc`, `tx_merge` and `ulong2_to_l8` in a row. `arp_proc` writes the two bytes
of its last beat to the high end of the word, and `ulong2_to_l8` takes the bytes
of a last beat from the low end.
-/

namespace IcmpServer.Transmit

open Elastic Words ArpProc Rtl

/-! ## Beats between the components -/

/-- The beat in a word of the 128-bit stream; the bits above it are padding. -/
def unpack (word : BitVec 128) : Beat where
  data := word.extractLsb' 0 64
  sop := word.extractLsb' 64 8
  eop := word.extractLsb' 72 8
  empty := word.extractLsb' 80 8

/-- What `ulong2_to_l8` reads of a beat. -/
def toL8 (beat : Beat) : L8Beat :=
  ⟨beat.data, beat.sop.getLsbD 0, beat.eop.getLsbD 0, beat.empty.extractLsb' 0 3⟩

/-- What `ulong2_to_l8` makes of a beat. -/
def onWire (beat : Beat) : L8Beat :=
  ulong2ToL8.nextStage0 (toL8 beat)

theorem convert_eq (word : BitVec 128) : ulong2ToL8.convert word = onWire (unpack word) := by
  have hbeat : ulong2ToL8.inBeat word = toL8 (unpack word) := by
    simp only [ulong2ToL8, toL8, unpack, BitVec.getLsbD_extractLsb', L8Beat.mk.injEq]
    refine ⟨trivial, by simp, by simp, ?_⟩
    apply BitVec.eq_of_getLsbD_eq
    intro bit hbit
    have hbyte : bit < 8 := by omega
    simp only [BitVec.getLsbD_extractLsb']
    simp [hbit, hbyte]
  rw [Converter.convert, hbeat]
  rfl

/-- The transferred beats are the merged ones, each as it comes out of the converter. -/
theorem transferred_isPrefix {cycles : List (Rtl.Cycle (BitVec 128))} {merged : List Beat}
    (hwire : (ulong2ToL8.run cycles).accepted.map unpack <+: merged) :
    (ulong2ToL8.run cycles).transferred <+: merged.map onWire := by
  have htransferred := (run_accounted ulong2ToL8 cycles).lossless.transferred
  rw [List.map_congr_left (g := onWire ∘ unpack) fun word _ => convert_eq word, ← List.map_map]
    at htransferred
  exact htransferred.trans (hwire.map onWire)

/-! ## Bytes -/

/-- The 42 bytes placed in six beats, most significant byte first. -/
def placedBytes (frame : List Beat) : List (BitVec 8) :=
  (frame.flatMap fun beat => (List.range 8).map (byte beat.data)).take 42

theorem placedBytes_eq (beats : Nat → Beat) :
    placedBytes ((List.range 6).map beats) =
      ((List.range 5).flatMap fun offset => (List.range 8).map (byte (beats offset).data)) ++
        [byte (beats 5).data 0, byte (beats 5).data 1] := by
  have hforty : ((List.range 5).flatMap fun offset =>
      (List.range 8).map (byte (beats offset).data)).length = 40 := by
    simp [List.range_succ]
  have hsix : List.range 6 = List.range 5 ++ [5] := List.range_succ
  rw [placedBytes, hsix, List.map_append, List.flatMap_append, List.flatMap_map, List.take_append,
    List.take_of_length_le (by omega), hforty]
  rfl

/-- The bytes on the packet output: eight of a beat, `8 - out_empty` of a last one. -/
def wireBytes (beats : List L8Beat) : List (BitVec 8) :=
  beats.flatMap fun beat =>
    (List.range (if beat.endofpacket then 8 - beat.empty.toNat else 8)).map (byte beat.data)

/-- Of a last beat with two bytes the converter takes the two low ones. -/
theorem byte_remainder (data : BitVec 64) (index : Nat) (hindex : index < 2) :
    byte (ulong2ToL8Remainder true 6#3 data) index = byte data (index + 6) := by
  apply BitVec.eq_of_getLsbD_eq
  intro bit hbit
  rw [ulong2ToL8Remainder_eq _ _ (by decide), getLsbD_byte, getLsbD_byte,
    getLsbD_doubled _ _ _ (by omega)]
  have hempty : (6#3).toNat = 6 := rfl
  have hupper : 8 * (6#3).toNat ≤ 8 * (7 - index) + bit ∧
      8 * (7 - index) + bit < 2 * (8 * (6#3).toNat) := by
    rw [hempty]
    omega
  have hsource : 8 * (7 - index) + bit - 8 * (6#3).toNat = 8 * (7 - (index + 6)) + bit := by
    rw [hempty]
    omega
  rw [decide_eq_true hupper, hsource, Bool.true_and]

theorem onWire_of_more {beat : Beat} (hmore : beat.eop = 0#8) : onWire beat = toL8 beat := by
  simp [onWire, toL8, Converter.nextStage0, ulong2ToL8, ulong2ToL8Remainder, hmore]

theorem onWire_of_end {beat : Beat} (hend : beat.eop = 1#8) (hempty : beat.empty = 6#8) :
    (onWire beat).endofpacket = true ∧ (onWire beat).empty = 6#3 ∧
      (onWire beat).data = ulong2ToL8Remainder true 6#3 beat.data := by
  simp [onWire, toL8, Converter.nextStage0, ulong2ToL8, hend, hempty]

/-- Six beats come out with the bytes placed in them when the last beat has the same
two bytes at both ends. -/
theorem wireBytes_eq_iff (beats : Nat → Beat) (hmore : ∀ offset < 5, (beats offset).eop = 0#8)
    (hend : (beats 5).eop = 1#8) (hempty : (beats 5).empty = 6#8) :
    wireBytes (((List.range 6).map beats).map onWire) = placedBytes ((List.range 6).map beats) ↔
      byte (beats 5).data 6 = byte (beats 5).data 0 ∧
        byte (beats 5).data 7 = byte (beats 5).data 1 := by
  obtain ⟨hlast, hunused, hdata⟩ := onWire_of_end hend hempty
  have hsix : List.range 6 = List.range 5 ++ [5] := List.range_succ
  have hwire : wireBytes (((List.range 6).map beats).map onWire) =
      ((List.range 5).flatMap fun offset => (List.range 8).map (byte (beats offset).data)) ++
        [byte (beats 5).data 6, byte (beats 5).data 7] := by
    rw [hsix, List.map_append, List.map_append, wireBytes, List.flatMap_append, List.map_map,
      List.flatMap_map]
    congr 1
    · apply List.flatMap_congr
      intro offset hoffset
      have hnotLast := hmore offset (List.mem_range.mp hoffset)
      rw [Function.comp_apply, onWire_of_more hnotLast]
      simp [toL8, hnotLast]
    · simp [hlast, hunused, hdata, List.range_succ, byte_remainder]
  rw [hwire, placedBytes_eq, List.append_cancel_left_eq]
  simp

/-! ## Frames -/

variable (addresses : Addresses)

def requestFrame : List Beat :=
  (List.range 6).map (requestBeat addresses)

/-- A reply frame with the request each beat was made of. -/
def replyFrame (sources : Nat → Received) : List Beat :=
  (List.range 6).map fun offset => replyBeat addresses (sources offset) offset

/-- `eop` is on beat 5 and on no other. -/
theorem last_of_emits {requests : List Received} {frame : Frame} {offset : Nat} {beat : Beat}
    (hoffset : offset < 6) (hbeat : emits addresses requests frame offset beat) :
    beat.last = decide (offset + 1 = 6) := by
  cases frame with
  | request =>
      obtain rfl : beat = requestBeat addresses offset := hbeat
      interval_cases offset <;> rfl
  | reply request =>
      obtain ⟨source, -, rfl⟩ := hbeat
      interval_cases offset <;> rfl

/-- Six beats emitted for a frame are a request frame or a reply frame. -/
theorem frame_of_emits {requests : List Received} {frame : Frame} {packet : List Beat}
    (hlength : packet.length = 6)
    (hbeats : ∀ offset beat, packet[offset]? = some beat →
      emits addresses requests frame offset beat) :
    packet = requestFrame addresses ∨
      ∃ sources : Nat → Received, (∀ offset < 6, sources offset ∈ requests) ∧
        packet = replyFrame addresses sources := by
  cases frame with
  | request =>
      refine Or.inl (List.ext_getElem (by simp [requestFrame, hlength]) ?_)
      intro offset hoffset _
      rw [hbeats offset _ (List.getElem?_eq_getElem hoffset)]
      simp [requestFrame]
  | reply request =>
      -- each beat is made of some request, not necessarily of the same one
      have hsource : ∀ offset, ∃ source, ∀ beat, packet[offset]? = some beat →
          source ∈ requests ∧ beat = replyBeat addresses source offset := by
        intro offset
        cases hbeat : packet[offset]? with
        | none => exact ⟨⟨0#8, 0#48, 0#32, 0#32⟩, by simp⟩
        | some beat =>
            obtain ⟨source, hmem, heq⟩ := hbeats offset beat hbeat
            exact ⟨source, fun other hother => by
              obtain rfl := Option.some.inj hother
              exact ⟨hmem, heq⟩⟩
      choose sources hsources using hsource
      refine Or.inr ⟨sources, ?_, ?_⟩
      · intro offset hoffset
        exact (hsources offset _ (List.getElem?_eq_getElem (by omega))).1
      · apply List.ext_getElem (by simp [replyFrame, hlength])
        intro offset hoffset _
        rw [(hsources offset _ (List.getElem?_eq_getElem hoffset)).2]
        simp [replyFrame]

/-- Every complete frame that `arp_proc` emits is one of the two. -/
theorem frame_of_run (input : List Beat) (pps : List (BitVec 8)) (calls : List Call)
    {arp : List (List Beat)} (harp : ∀ packet ∈ arp, IsPacket Beat.last packet)
    (hemitted : arp.flatten <+: (run addresses (start input pps) calls).output) :
    ∀ frame ∈ arp, frame = requestFrame addresses ∨
      ∃ sources : Nat → Received,
        (∀ offset < 6, sources offset ∈ (run addresses (start input pps) calls).requests) ∧
          frame = replyFrame addresses sources := by
  intro packet hpacket
  have hframed := (run_accounted addresses calls _
    (start_accounted addresses input pps)).sending.framed.of_isPrefix
      (hemitted.trans (List.prefix_append _ _))
  obtain ⟨hlength, frame, -, hbeats⟩ := FramedAs.packets (by decide)
    (fun _ _ _ hoffset hbeat => last_of_emits addresses hoffset hbeat) harp hframed packet hpacket
  exact frame_of_emits addresses hlength hbeats

/-! ## Both ends of the last beat -/

/-- The low half of an address is zero when its two bytes are. -/
theorem ipField_eq_zero_iff (beat : Beat) :
    ipField beat = 0#16 ↔ byte beat.data 0 = 0#8 ∧ byte beat.data 1 = 0#8 := by
  have hwide := beat.data.isLt
  simp only [← BitVec.toNat_inj, toNat_byte, ipField, BitVec.extractLsb'_toNat,
    Nat.shiftRight_eq_div_pow, BitVec.toNat_ofNat]
  omega

/-- Beat 5 leaves the low end of the word empty. -/
theorem endBytes_iff (ip : BitVec 32) (beat : Beat)
    (hbeat : beat = orData (arpData addresses 5)
      (ip.setWidth 64 <<< 48 &&& 0xffff000000000000#64)) :
    byte beat.data 6 = byte beat.data 0 ∧ byte beat.data 7 = byte beat.data 1 ↔
      ip.setWidth 16 = 0#16 := by
  have hlow : ∀ index, 6 ≤ index → index < 8 → byte beat.data index = 0#8 := by
    intro index hfrom hto
    rw [hbeat, orData, byte_or, byte_and, byte_shiftLeft _ _ _ (by decide) hto,
      if_neg (by omega)]
    simp [arpData, byte_ofNat]
  rw [hlow 6 (by decide) (by decide), hlow 7 (by decide) (by decide), ← ipField_orData addresses ip,
    ← hbeat, ipField_eq_zero_iff, eq_comm, eq_comm (a := 0#8)]

/-! ## The guarantee -/

/-- The bytes placed in a frame are on the packet output, from a position on. -/
def Intact (wire : List L8Beat) (position : Nat) (frame : List Beat) : Prop :=
  wireBytes ((wire.drop position).take frame.length) = placedBytes frame

theorem requestFrame_onWire_iff :
    wireBytes ((requestFrame addresses).map onWire) = placedBytes (requestFrame addresses) ↔
      addresses.gtwIp.setWidth 16 = 0#16 := by
  have hmore : ∀ offset < 5, (requestBeat addresses offset).eop = 0#8 := by
    intro offset hoffset
    interval_cases offset <;> rfl
  rw [requestFrame, wireBytes_eq_iff _ hmore rfl rfl]
  exact endBytes_iff addresses addresses.gtwIp _ rfl

theorem replyFrame_onWire_iff (sources : Nat → Received) :
    wireBytes ((replyFrame addresses sources).map onWire) =
        placedBytes (replyFrame addresses sources) ↔
      (sources 5).srcIp.setWidth 16 = 0#16 := by
  have hmore : ∀ offset < 5, (replyBeat addresses (sources offset) offset).eop = 0#8 := by
    intro offset hoffset
    interval_cases offset <;> rfl
  rw [replyFrame, wireBytes_eq_iff _ hmore rfl rfl]
  exact endBytes_iff addresses (sources 5).srcIp _ rfl

/-- Of the frames that have come through `tx_merge` and `ulong2_to_l8`, exactly those
are intact whose target IP address ends in two zero bytes: the gateway's address
in a request, the requester's in a reply. -/
theorem arpFrames_intact_iff (input : List Beat) (pps : List (BitVec 8)) (calls : List Call)
    (arp ipv4 : List (List Beat)) (harp : ∀ packet ∈ arp, IsPacket Beat.last packet)
    (hipv4 : ∀ packet ∈ ipv4, IsPacket Beat.last packet)
    (hemitted : arp.flatten <+: (run addresses (start input pps) calls).output)
    (schedule : List TxMerge.Call) (cycles : List (Rtl.Cycle (BitVec 128)))
    (hwire : (ulong2ToL8.run cycles).accepted.map unpack <+:
      (TxMerge.run (TxMerge.start arp.flatten ipv4.flatten) schedule).output) :
    ∃ merged, Interleaves arp ipv4 merged ∧
      (TxMerge.run (TxMerge.start arp.flatten ipv4.flatten) schedule).output <+: merged.flatten ∧
      ∀ before frame after, merged = before ++ frame :: after → frame ∈ arp →
        before.flatten.length + frame.length ≤ (ulong2ToL8.run cycles).transferred.length →
        (frame = requestFrame addresses ∧
          (Intact (ulong2ToL8.run cycles).transferred before.flatten.length frame ↔
            addresses.gtwIp.setWidth 16 = 0#16)) ∨
        ∃ sources : Nat → Received,
          (∀ offset < 6, sources offset ∈ (run addresses (start input pps) calls).requests) ∧
          frame = replyFrame addresses sources ∧
          (Intact (ulong2ToL8.run cycles).transferred before.flatten.length frame ↔
            (sources 5).srcIp.setWidth 16 = 0#16) := by
  obtain ⟨merged, hmerged, hinitial⟩ := TxMerge.run_output_merge harp hipv4 schedule
  refine ⟨merged, hmerged, hinitial, ?_⟩
  intro before frame after hsplit hframe hlength
  have htransferred := transferred_isPrefix (hwire.trans hinitial)
  rw [hsplit] at htransferred
  have hwireFrame := take_drop_of_isPrefix onWire htransferred hlength
  rw [Intact, hwireFrame]
  rcases frame_of_run addresses input pps calls harp hemitted frame hframe with
    rfl | ⟨sources, hsources, rfl⟩
  · exact Or.inl ⟨rfl, requestFrame_onWire_iff addresses⟩
  · exact Or.inr ⟨sources, hsources, rfl, replyFrame_onWire_iff addresses sources⟩

/-! ## A request to the gateway -/

/-- Six beats with `GTW_IP` 192.168.2.1, sent at a PPS pulse. -/
def gatewayRequest : List Beat :=
  requestFrame .default

/-- The words of the frame, one a cycle, and cycles enough to pass them on. -/
def gatewayCycles : List (Rtl.Cycle (BitVec 128)) :=
  ⟨0#128, false, true⟩ ::
    gatewayRequest.map
      (fun beat => ⟨0#40 ++ beat.empty ++ beat.eop ++ beat.sop ++ beat.data, true, true⟩) ++
    List.replicate 4 ⟨0#128, false, true⟩

/-- The hypotheses of the frame's way through the three components. -/
theorem gatewayRequest_sent :
    (∀ packet ∈ [gatewayRequest], IsPacket Beat.last packet) ∧
      [gatewayRequest].flatten <+:
        (run .default (start [] [0#8]) (List.replicate 9 served)).output ∧
      (ulong2ToL8.run gatewayCycles).accepted.map unpack <+:
        (TxMerge.run (TxMerge.start [gatewayRequest].flatten [])
          (List.replicate 8 ⟨true, true, true⟩)).output := by
  decide

/-- The last two bytes of the gateway's address come out as zero. -/
theorem gatewayRequest_not_intact :
    [gatewayRequest].flatten <+:
        (run .default (start [] [0#8]) (List.replicate 9 served)).output ∧
      (ulong2ToL8.run gatewayCycles).accepted.map unpack <+:
        (TxMerge.run (TxMerge.start [gatewayRequest].flatten [])
          (List.replicate 8 ⟨true, true, true⟩)).output ∧
      (ulong2ToL8.run gatewayCycles).transferred.length = 6 ∧
      ¬ Intact (ulong2ToL8.run gatewayCycles).transferred 0 gatewayRequest := by
  refine ⟨gatewayRequest_sent.2.1, gatewayRequest_sent.2.2, by decide, ?_⟩
  rw [Intact]
  decide

theorem arpFrames_intact_iff_gatewayRequest :
    ∃ merged, Interleaves [gatewayRequest] [] merged ∧
      (TxMerge.run (TxMerge.start [gatewayRequest].flatten [])
        (List.replicate 8 ⟨true, true, true⟩)).output <+: merged.flatten ∧
      ∀ before frame after, merged = before ++ frame :: after → frame ∈ [gatewayRequest] →
        before.flatten.length + frame.length ≤
          (ulong2ToL8.run gatewayCycles).transferred.length →
        (frame = requestFrame .default ∧
          (Intact (ulong2ToL8.run gatewayCycles).transferred before.flatten.length frame ↔
            Addresses.default.gtwIp.setWidth 16 = 0#16)) ∨
        ∃ sources : Nat → Received,
          (∀ offset < 6, sources offset ∈
            (run .default (start [] [0#8]) (List.replicate 9 served)).requests) ∧
          frame = replyFrame .default sources ∧
          (Intact (ulong2ToL8.run gatewayCycles).transferred before.flatten.length frame ↔
            (sources 5).srcIp.setWidth 16 = 0#16) :=
  arpFrames_intact_iff .default [] [0#8] (List.replicate 9 served) [gatewayRequest] []
    gatewayRequest_sent.1 (by simp) gatewayRequest_sent.2.1 (List.replicate 8 ⟨true, true, true⟩)
    gatewayCycles gatewayRequest_sent.2.2

end IcmpServer.Transmit
