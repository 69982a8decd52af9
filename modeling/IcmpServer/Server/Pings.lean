import IcmpServer.Server.Liveness
import IcmpServer.Server.Pongs

/-! # Pings are answered by pongs

What the server is for. Of the frames that the receive MAC delivers those with an ICMP
message come back, in order. Where the frame is a ping, what comes back is a pong to it.
-/

namespace IcmpServer.Server

open Elastic Rtl Transmit Receive Words

/-! ## Which frames go to the chain -/

theorem extractLsb'_eq_iff (data : BitVec 64) (upper lower : BitVec 8) :
    data.extractLsb' 16 16 = upper ++ lower ↔ byte data 4 = upper ∧ byte data 5 = lower := by
  rw [← bytes_inj]
  have hupper : (data.extractLsb' 16 16).extractLsb' 8 8 = byte data 4 :=
    extractLsb'_extractLsb' data (by decide)
  have hlower : (data.extractLsb' 16 16).extractLsb' 0 8 = byte data 5 :=
    extractLsb'_extractLsb' data (by decide)
  have hbytes : bytes 2 (data.extractLsb' 16 16) = [byte data 4, byte data 5] := by
    rw [← hupper, ← hlower]
    rfl
  have hvalue : bytes 2 (upper ++ lower) = [upper, lower] :=
    congrArg₂ (fun first second => [first, second]) BitVec.extractLsb'_append_eq_left
      BitVec.extractLsb'_append_eq_right
  rw [hbytes, hvalue, List.cons.injEq, List.cons.injEq]
  simp

section Route

variable {frame : List (BitVec 8)} {wire : List L8Beat} (hcarries : Carries frame wire)
  (hlength : 42 ≤ frame.length ∧ frame.length ≤ 2048)
include hcarries hlength

/-- The splitters look for the bytes of an ICMP message. -/
theorem route_iff :
    RxSplit.etypeRoute (wire.map fromWire) = .ipv4 ∧
        RxSplit.ipv4protoRoute (wire.map fromWire) = .icmp ↔ IsIcmp frame := by
  obtain ⟨hsix, -⟩ := wire_length hcarries hlength
  have hbyte : ∀ k < 40, frame[k]? = some (IcmpProc.packetByte (wire.map fromWire) k) :=
    fun k hk => packetByte_fromWire hcarries (by omega) (by omega)
  obtain ⟨b0, b1, b2, b3, b4, rest, hbeats⟩ :=
    IcmpProc.exists_five_beats (show 5 ≤ (wire.map fromWire).length by simp; omega)
  rw [hbeats] at hbyte ⊢
  have hetype : field frame 12 2 = [byte b1.data 4, byte b1.data 5] :=
    field_eq_map _ fun index hindex => hbyte _ (by omega)
  have hproto : field frame 23 1 = [byte b2.data 7] :=
    field_eq_map _ fun index hindex => hbyte _ (by omega)
  have hipv4 : RxSplit.etypeRoute (b0 :: b1 :: b2 :: b3 :: b4 :: rest) = .ipv4 ↔
      b1.data.extractLsb' 16 16 = 0x08#8 ++ 0x00#8 := by
    simp only [RxSplit.etypeRoute]
    split_ifs with harp hipv4
    · rw [harp]
      decide
    · exact ⟨fun _ => hipv4, fun _ => rfl⟩
    · exact ⟨fun hother => absurd hother (by decide), fun hsame => absurd hsame hipv4⟩
  have hicmp : RxSplit.ipv4protoRoute (b0 :: b1 :: b2 :: b3 :: b4 :: rest) = .icmp ↔
      byte b2.data 7 = 0x01#8 := by
    simp only [RxSplit.ipv4protoRoute, BitVec.setWidth_eq_extractLsb' (show 8 ≤ 64 by decide)]
    split_ifs with hicmp
    · exact ⟨fun _ => hicmp, fun _ => rfl⟩
    · exact ⟨fun hother => absurd hother (by decide), fun hsame => absurd hsame hicmp⟩
  rw [hipv4, hicmp, extractLsb'_eq_iff, IsIcmp, hetype, hproto]
  simp

end Route

/-- The frames with an ICMP message are the packets that go to the chain. -/
theorem forall₂_icmpOf {frames : List (List (BitVec 8))} {stream : List (List L8Beat)}
    (hcarries : List.Forall₂ Carries frames stream)
    (hlength : ∀ frame ∈ frames, 42 ≤ frame.length ∧ frame.length ≤ 2048) :
    List.Forall₂ (fun frame packet => ∃ wire, Carries frame wire ∧
        (42 ≤ frame.length ∧ frame.length ≤ 2048) ∧ packet = wire.map fromWire)
      (frames.filter IsIcmp) (icmpOf stream) := by
  induction hcarries with
  | nil => exact List.Forall₂.nil
  | @cons frame wire frames stream hframe _ ih =>
      obtain ⟨hthis, hothers⟩ := List.forall_mem_cons.mp hlength
      have hroute := route_iff hframe hthis
      have htail := ih hothers
      by_cases hicmp : IsIcmp frame
      · obtain ⟨hipv4, hproto⟩ := hroute.mpr hicmp
        have hhead : icmpOf (wire :: stream) = wire.map fromWire :: icmpOf stream := by
          simp [icmpOf, IcmpProc.icmpPackets, ofEtype, received, hipv4, hproto]
        rw [hhead, List.filter_cons, if_pos (decide_eq_true hicmp)]
        exact List.Forall₂.cons ⟨wire, hframe, hthis, rfl⟩ htail
      · have hhead : icmpOf (wire :: stream) = icmpOf stream := by
          have hother := hroute.not.mpr hicmp
          by_cases hipv4 : RxSplit.etypeRoute (wire.map fromWire) = .ipv4
          · have hproto : RxSplit.ipv4protoRoute (wire.map fromWire) ≠ .icmp :=
              fun hproto => hother ⟨hipv4, hproto⟩
            simp [icmpOf, IcmpProc.icmpPackets, ofEtype, received, hipv4, hproto]
          · simp [icmpOf, IcmpProc.icmpPackets, ofEtype, received, hipv4]
        rw [hhead, List.filter_cons, if_neg (by simpa using hicmp)]
        exact htail

/-! ## The guarantee -/

theorem isPacket_of_carries {frame : List (BitVec 8)} {wire : List L8Beat}
    (hcarries : Carries frame wire) (hlength : 42 ≤ frame.length ∧ frame.length ≤ 2048) :
    IsPacket L8Beat.endofpacket wire := by
  obtain ⟨hsix, -⟩ := wire_length hcarries hlength
  exact IsPacket.of_getElem? (List.ne_nil_of_length_pos (by omega)) hcarries.endofpacket

/-- Everything on the right has its partner on the left. -/
theorem exists_partner {α β : Type} {related : α → β → Prop} {left : List α} {right : List β}
    (hrelated : List.Forall₂ related left right) :
    ∀ second ∈ right, ∃ first ∈ left, related first second := by
  induction hrelated with
  | nil => simp
  | cons hpair _ ih =>
      intro second hmem
      rcases List.mem_cons.mp hmem with rfl | hmem
      · exact ⟨_, List.mem_cons_self, hpair⟩
      · obtain ⟨first, hfirst, hsecond⟩ := ih second hmem
        exact ⟨first, List.mem_cons_of_mem _ hfirst, hsecond⟩

section Frames

variable {frames : List (List (BitVec 8))} {stream : List (List L8Beat)}
  (hcarries : List.Forall₂ Carries frames stream)
  (hlength : ∀ frame ∈ frames, 42 ≤ frame.length ∧ frame.length ≤ 2048)
include hcarries hlength

theorem frames_isPacket :
    ∀ packet ∈ stream, IsPacket L8Beat.endofpacket packet ∧ packet.length ≤ 2045 := by
  intro packet hmem
  obtain ⟨frame, hframe, hbeats⟩ := exists_partner hcarries packet hmem
  have hmost := (wire_length hbeats (hlength frame hframe)).2
  exact ⟨isPacket_of_carries hbeats (hlength frame hframe), by omega⟩

theorem frames_pass : ∀ packet ∈ icmpOf stream, ¬ IcmpProc.Wedges packet := by
  intro packet hmem
  obtain ⟨_, -, wire, hbeats, hroom, rfl⟩ :=
    exists_partner (forall₂_icmpOf hcarries hlength) packet hmem
  exact (echoed_wire hbeats hroom).1

/-- The echoes carry frames, pongs for pings. -/
theorem forall₂_echoed :
    List.Forall₂ (fun frame echo => ∃ answer, Carries answer (echo.map onWire) ∧
        answer.length = frame.length ∧ (IsPing frame → Intact frame → IsPong frame answer))
      (frames.filter IsIcmp) ((icmpOf stream).map IcmpProc.echoed) := by
  rw [List.forall₂_map_right_iff]
  refine (forall₂_icmpOf hcarries hlength).imp ?_
  rintro frame _ ⟨wire, hbeats, hroom, rfl⟩
  exact ⟨_, echo_carries hbeats hroom, length_wireBytes _ _, echo_isPong hbeats hroom⟩

end Frames

/-- Frames of 42 to 2048 bytes having been delivered, every component being served again
and again: in the end the transmit MAC gets, with ARP frames between them, one frame of the
same length for each that has an ICMP message, in order. To a ping that is a pong, when
the bytes that the converters clear are zero. -/
theorem server_pongs {scfifo : Scfifo} {words : scfifo.State → List (BitVec 80)}
    (hideal : scfifo.Ideal words) (addresses : ArpProc.Addresses) (pps : List (BitVec 8))
    (before : List Action) (frames : List (List (BitVec 8))) (stream : List (List L8Beat))
    (hcarries : List.Forall₂ Carries frames stream)
    (hlength : ∀ frame ∈ frames, 42 ≤ frame.length ∧ frame.length ≤ 2048)
    (rounds : Nat → List Action) (hrounds : FairRounds Undisturbed Meets rounds) :
    let state := run addresses (start scfifo pps) before
    state.toUlong2.accepted = stream.flatten →
    ∃ settled, ∀ count, settled ≤ count →
      let later := afterRounds (step addresses) state rounds count
      ∃ arp echoes merged, Interleaves arp echoes merged ∧
        later.transmitter.pktBuf.transferred = merged.flatten.map onWire ∧
        (∀ frame ∈ arp, IsArpFrame addresses later.arp.requests frame) ∧
        List.Forall₂ (fun frame echo => ∃ answer, Carries answer (echo.map onWire) ∧
            answer.length = frame.length ∧ (IsPing frame → Intact frame → IsPong frame answer))
          (frames.filter IsIcmp) echoes := by
  intro state haccepted
  have hstream := frames_isPacket hcarries hlength
  have hpasses := frames_pass hcarries hlength
  have hfirst : Arrived words addresses pps stream
      (afterRounds (step addresses) state rounds 0) :=
    ⟨run_accounted hideal pps before, haccepted⟩
  obtain ⟨settled, hsettled⟩ := settles hideal hrounds hstream hpasses hfirst
  refine ⟨settled, ?_⟩
  intro count hcount
  obtain ⟨arp, merged, hinterleaves, htransferred, harp, -⟩ :=
    (hsettled count hcount).answers (fun packet hmem => (hstream packet hmem).1) hpasses
  exact ⟨arp, _, merged, hinterleaves, htransferred, harp, forall₂_echoed hcarries hlength⟩

/-- The ping as the bytes of its frame. -/
def testPingFrame : List (BitVec 8) :=
  wireBytes 60 testPing

theorem server_pongs_testPing :
    (IsPing testPingFrame ∧ Intact testPingFrame ∧ OneFold testPingFrame ∧
        ChecksumValid (message testPingFrame)) ∧
      ∃ settled, ∀ count, settled ≤ count →
        let later := afterRounds (step .default)
          (run .default (start Scfifo.list []) (testActions (wireBeats testPingFrame) 0))
          (fun _ => served ⟨0#64, false, false, 0#3⟩ false) count
        ∃ arp echoes merged, Interleaves arp echoes merged ∧
          later.transmitter.pktBuf.transferred = merged.flatten.map onWire ∧
          (∀ frame ∈ arp, IsArpFrame .default later.arp.requests frame) ∧
          List.Forall₂ (fun frame echo => ∃ answer, Carries answer (echo.map onWire) ∧
              answer.length = frame.length ∧ (IsPing frame → Intact frame → IsPong frame answer))
            ([testPingFrame].filter IsIcmp) echoes := by
  refine ⟨⟨⟨by decide +kernel, by decide +kernel, by decide +kernel, by decide +kernel,
    by decide +kernel⟩, by decide +kernel, by decide +kernel, by decide +kernel⟩, ?_⟩
  exact server_pongs Scfifo.list_ideal .default [] (testActions (wireBeats testPingFrame) 0)
    [testPingFrame] [wireBeats testPingFrame]
    (List.Forall₂.cons (wireBeats_carries testPingFrame) List.Forall₂.nil) (by decide +kernel) _
    fairRounds_served (by decide +kernel)

end IcmpServer.Server
