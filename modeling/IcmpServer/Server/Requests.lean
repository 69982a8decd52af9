import IcmpServer.Server.Transmitted

/-! # Who is answered

On packets as a MAC delivers them, of six beats at least and marked at their first,
the requests `arp_proc` accepts are ARP packets that were received for `OWN_IP`. The
beats of two packets are never combined, and no other packet leads to a reply.
-/

namespace IcmpServer.Server

open Elastic Rtl Transmit Receive ArpProc

/-- A packet on the receive side of the MAC is of six beats at least, with
`startofpacket` on the first alone. -/
def Delivered (packet : List L8Beat) : Prop :=
  6 ≤ packet.length ∧ Headed L8Beat.startofpacket packet

instance : DecidablePred Delivered :=
  fun packet => inferInstanceAs
    (Decidable (6 ≤ packet.length ∧ Headed L8Beat.startofpacket packet))

theorem first_fromWire (beat : L8Beat) : (fromWire beat).first = beat.startofpacket := by
  rw [Beat.first, (markers_fromWire beat).1]
  cases beat.startofpacket <;> rfl

theorem Delivered.sixBeats {packet : List L8Beat} (hpacket : Delivered packet) :
    SixBeats (packet.map fromWire) := by
  obtain ⟨hlength, hheaded⟩ := hpacket
  refine ⟨by rwa [List.length_map], ?_⟩
  cases packet with
  | nil => exact hheaded.elim
  | cons beat rest =>
      refine ⟨(first_fromWire beat).trans hheaded.1, ?_⟩
      intro other hother
      obtain ⟨wire, hwire, rfl⟩ := List.mem_map.mp hother
      exact (first_fromWire wire).trans (hheaded.2 wire hwire)

theorem sixBeats_ofEtype {stream : List (List L8Beat)}
    (hstream : ∀ packet ∈ stream, Delivered packet) (port : RxSplit.Etype) :
    ∀ packet ∈ ofEtype port stream, SixBeats packet := by
  intro packet hmem
  obtain ⟨wire, hwire, rfl⟩ := List.mem_map.mp (List.mem_filter.mp hmem).1
  exact (hstream wire hwire).sixBeats

/-- The request came in as a packet of the stream. -/
def Requested (addresses : Addresses) (stream : List (List L8Beat)) (request : Received) : Prop :=
  ∃ packet ∈ stream, RxSplit.etypeRoute (packet.map fromWire) = .arp ∧
    IsRequest addresses (packet.map fromWire) request

theorem Accounted.requested {scfifo : Scfifo} {words : scfifo.State → List (BitVec 80)}
    {addresses : Addresses} {pps : List (BitVec 8)} {state : State scfifo}
    (hstate : Accounted words addresses pps state) {stream : List (List L8Beat)}
    (hstream : ∀ packet ∈ stream, IsPacket L8Beat.endofpacket packet ∧ Delivered packet)
    (hdelivered : state.toUlong2.accepted <+: stream.flatten) :
    ∀ request ∈ state.arp.requests, Requested addresses stream request := by
  obtain ⟨later, hlater⟩ :=
    etype_output hstate (fun packet hmem => (hstream packet hmem).1) hdelivered .arp
  have hsix := sixBeats_ofEtype (fun packet hmem => (hstream packet hmem).2) .arp
  have hprovenance : Provenance addresses (ofEtype .arp stream) (ArpProc.feed state.arp later) := by
    refine hstate.arp.holds (fun whole config => whole = (ofEtype .arp stream).flatten →
      Provenance addresses (ofEtype .arp stream) config) ?_ later hlater
    rintro _ schedule rfl
    exact run_provenance addresses hsix pps schedule
  intro request hrequest
  obtain ⟨packet, hmem, hpacket⟩ := hprovenance.requests request hrequest
  obtain ⟨hreceived, hroute⟩ := List.mem_filter.mp hmem
  obtain ⟨wire, hwire, rfl⟩ := List.mem_map.mp hreceived
  exact ⟨wire, hwire, of_decide_eq_true hroute, hpacket⟩

/-- Every ARP frame that the transmit MAC gets is a request for the gateway's address,
or a reply whose fields are those of ARP packets received for `OWN_IP`. -/
theorem server_answers {scfifo : Scfifo} {words : scfifo.State → List (BitVec 80)}
    (hideal : scfifo.Ideal words) (addresses : Addresses) (pps : List (BitVec 8))
    (actions : List Action) (stream : List (List L8Beat))
    (hstream : ∀ packet ∈ stream, IsPacket L8Beat.endofpacket packet ∧ Delivered packet) :
    let state := run addresses (start scfifo pps) actions
    state.toUlong2.accepted <+: stream.flatten →
    ∃ frames replies merged, Interleaves frames replies merged ∧
      state.transmitter.pktBuf.transferred <+: merged.flatten.map onWire ∧
      (∀ frame ∈ frames, frame = requestFrame addresses ∨
        ∃ sources : Nat → Received, (∀ offset < 6, Requested addresses stream (sources offset)) ∧
          frame = replyFrame addresses sources) ∧
      replies <+: answered (icmpOf stream) := by
  intro state hdelivered
  have hstate : Accounted words addresses pps state := run_accounted hideal pps actions
  obtain ⟨frames, replies, merged, hmerged, htransferred, hframes, hreplies⟩ :=
    hstate.transmits (fun packet hmem => (hstream packet hmem).1) hdelivered
  refine ⟨frames, replies, merged, hmerged, htransferred, ?_, hreplies⟩
  intro frame hframe
  apply (hframes frame hframe).imp_right
  rintro ⟨sources, hsources, rfl⟩
  exact ⟨sources, fun offset hoffset =>
    hstate.requested hstream hdelivered _ (hsources offset hoffset), rfl⟩

/-- A request for 192.168.2.100 as the MAC delivers it, padded to 60 bytes. -/
def testArpRequest : List L8Beat :=
  [⟨0xffffffffffff0600#64, true, false, 0#3⟩,
    ⟨0x0000000108060001#64, false, false, 0#3⟩,
    ⟨0x0800060400010600#64, false, false, 0#3⟩,
    ⟨0x00000001c0a80205#64, false, false, 0#3⟩,
    ⟨0xffffffffffffc0a8#64, false, false, 0#3⟩,
    ⟨0x0264000000000000#64, false, false, 0#3⟩,
    ⟨0x0000000000000000#64, false, false, 0#3⟩,
    ⟨0x0000000000000000#64, false, true, 4#3⟩]

theorem server_answers_testArpRequest :
    let state := run .default (start Scfifo.list []) (testActions testArpRequest 40)
    (∀ packet ∈ [testArpRequest], IsPacket L8Beat.endofpacket packet ∧ Delivered packet) ∧
      state.transmitter.pktBuf.transferred.length = 6 ∧
      ∃ frames replies merged, Interleaves frames replies merged ∧
        state.transmitter.pktBuf.transferred <+: merged.flatten.map onWire ∧
        (∀ frame ∈ frames, frame = requestFrame .default ∨
          ∃ sources : Nat → Received,
            (∀ offset < 6, Requested .default [testArpRequest] (sources offset)) ∧
              frame = replyFrame .default sources) ∧
        replies <+: answered (icmpOf [testArpRequest]) := by
  have hstream : ∀ packet ∈ [testArpRequest], IsPacket L8Beat.endofpacket packet ∧
      Delivered packet := by decide
  exact ⟨hstream, by decide +kernel,
    server_answers Scfifo.list_ideal .default [] (testActions testArpRequest 40)
      [testArpRequest] hstream (by decide +kernel)⟩

end IcmpServer.Server
