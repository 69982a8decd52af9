import IcmpServer.ArpProc.Occasions
import IcmpServer.Server.Requests

/-! # How much the server sends

Every packet sent has a packet received or a PPS pulse of its own, and is no longer
than the packet it answers. The server cannot be used to amplify traffic.
-/

namespace IcmpServer.Server

open Elastic Rtl Transmit Receive ArpProc

/-- Complete frames that `arp_proc` writes are of six beats, and no more than the frames
started. -/
theorem frames_length_le {addresses : Addresses} {config : ArpProc.Config}
    (hconfig : ArpProc.Accounted addresses config)
    {arp : List (List Beat)} (harp : ∀ packet ∈ arp, IsPacket Beat.last packet)
    (hwritten : arp.flatten <+: config.output) :
    (∀ frame ∈ arp, frame.length = 6) ∧ arp.length ≤ config.frames.length := by
  have hframed := hconfig.sending.framed.of_isPrefix (hwritten.trans (List.prefix_append _ _))
  have hlength : ∀ frame ∈ arp, frame.length = 6 := fun frame hframe =>
    (FramedAs.packets (by decide)
      (fun _ _ _ hoffset hbeat => last_of_emits addresses hoffset hbeat) harp hframed frame
      hframe).1
  have hbeats := hframed.length_le (by decide)
  rw [List.length_flatten, List.map_congr_left hlength, List.map_const', List.sum_replicate_nat]
    at hbeats
  exact ⟨hlength, Nat.le_of_mul_le_mul_right hbeats (by decide)⟩

/-! ## Replies among the frames -/

/-- The frames that are no requests for the gateway's address. -/
def repliesOf (addresses : Addresses) (frames : List (List Beat)) : List (List Beat) :=
  frames.filter fun frame => frame ≠ requestFrame addresses

/-- A reply is told from a request by the operation in beat 2. -/
theorem opField_of_emits {addresses : Addresses} {requests : List Received} {frame : Frame}
    {beat : Beat} (hbeat : emits addresses requests frame 2 beat) :
    opField beat = if frame.isReply then 0x0002#16 else 0x0001#16 := by
  cases frame with
  | request =>
      obtain rfl : beat = requestBeat addresses 2 := hbeat
      exact opField_orData addresses _
  | reply request =>
      obtain ⟨source, -, rfl⟩ := hbeat
      exact opField_orData addresses _

/-- Also behind the last converter. -/
theorem onWire_replyFrame_ne (addresses : Addresses) (sources : Nat → Received) :
    (replyFrame addresses sources).map onWire ≠ (requestFrame addresses).map onWire := by
  intro hsame
  have hbeat : onWire (replyBeat addresses (sources 2) 2) = onWire (requestBeat addresses 2) :=
    Option.some.inj (congrArg (fun frame : List L8Beat => frame[2]?) hsame)
  have hdata := congrArg L8Beat.data hbeat
  rw [data_onWire (endofpacket_onWire rfl), data_onWire (endofpacket_onWire rfl)] at hdata
  have hop : opField (replyBeat addresses (sources 2) 2) = opField (requestBeat addresses 2) :=
    congrArg (BitVec.extractLsb' 16 16) hdata
  have hreply : opField (replyBeat addresses (sources 2) 2) = 0x0002#16 :=
    opField_orData addresses _
  have hrequest : opField (requestBeat addresses 2) = 0x0001#16 := opField_orData addresses _
  rw [hop, hrequest] at hreply
  exact absurd hreply (by decide)

theorem replyFrame_ne (addresses : Addresses) (sources : Nat → Received) :
    replyFrame addresses sources ≠ requestFrame addresses :=
  ne_of_apply_ne (List.map onWire) (onWire_replyFrame_ne addresses sources)

/-- Six beats sent for a frame are a reply exactly if the frame is one. -/
theorem isReply_eq {addresses : Addresses} {requests : List Received} {frame : Frame}
    {packet : List Beat} (hlength : packet.length = 6)
    (hbeats : ∀ offset beat, packet[offset]? = some beat →
      emits addresses requests frame offset beat) :
    frame.isReply = decide (packet ≠ requestFrame addresses) := by
  have hop := fun beat (hbeat : packet[2]? = some beat) =>
    opField_of_emits (hbeats 2 beat hbeat)
  rcases frame_of_emits addresses hlength hbeats with rfl | ⟨sources, -, rfl⟩
  · have hrequest := (hop _ rfl).symm.trans (opField_orData addresses _)
    cases hreply : frame.isReply with
    | false => simp
    | true => simp [hreply] at hrequest
  · have hframe := (hop _ rfl).symm.trans (opField_orData addresses _)
    rw [decide_eq_true (replyFrame_ne addresses sources)]
    by_contra hnot
    simp [hnot] at hframe

/-- The replies written are the first of those started. -/
theorem length_repliesOf {addresses : Addresses} {config : ArpProc.Config}
    (hconfig : ArpProc.Accounted addresses config)
    {arp : List (List Beat)} (harp : ∀ packet ∈ arp, IsPacket Beat.last packet)
    (hwritten : arp.flatten <+: config.output) :
    (repliesOf addresses arp).length = (config.frames.take arp.length).countP Frame.isReply := by
  obtain ⟨hsix, hcount⟩ := frames_length_le hconfig harp hwritten
  have hframed := hconfig.sending.framed.of_isPrefix (hwritten.trans (List.prefix_append _ _))
  have hpairs := hframed.forall₂ (by decide) hsix hcount
  rw [repliesOf, ← List.countP_eq_length_filter]
  exact (countP_eq_of_forall₂ hpairs fun _ _ hpair => isReply_eq hpair.1 hpair.2).symm

/-- No request accepted has two replies. -/
theorem length_repliesOf_le {addresses : Addresses} {config : ArpProc.Config}
    (hconfig : ArpProc.Accounted addresses config) (hanswered : Answered config)
    {arp : List (List Beat)} (harp : ∀ packet ∈ arp, IsPacket Beat.last packet)
    (hwritten : arp.flatten <+: config.output) :
    (repliesOf addresses arp).length ≤ config.requests.length := by
  have htake := (List.take_sublist arp.length config.frames).countP_le (p := Frame.isReply)
  rw [Answered, ← List.countP_eq_length_filter] at hanswered
  rw [length_repliesOf hconfig harp hwritten]
  omega

/-! ## Packets and beats -/

/-- An answer is as long as its packet, and no packet has two. -/
theorem answered_le (packets : List (List Beat)) :
    (answered packets).length ≤ packets.length ∧
      ((answered packets).map List.length).sum ≤ (packets.map List.length).sum := by
  induction packets with
  | nil => exact ⟨Nat.le_refl _, Nat.le_refl _⟩
  | cons packet rest ih =>
      by_cases hwedges : IcmpProc.Wedges packet
      · simp [answered, hwedges]
      · have hlength := IcmpProc.length_echoed_of_passes hwedges
        have hanswered : answered (packet :: rest) =
            IcmpProc.echoed packet :: answered rest := by
          simp [answered, hwedges]
        rw [hanswered, List.length_cons, List.length_cons, List.map_cons, List.map_cons,
          List.sum_cons, List.sum_cons, hlength]
        omega

theorem sum_filter_disjoint {α : Type} {first second : α → Bool}
    (hdisjoint : ∀ item, first item = true → second item = false) (weight : α → Nat)
    (items : List α) :
    ((items.filter first).map weight).sum + ((items.filter second).map weight).sum ≤
      (items.map weight).sum := by
  induction items with
  | nil => exact Nat.le_refl _
  | cons item rest ih =>
      have hitem := hdisjoint item
      rw [List.filter_cons, List.filter_cons, List.map_cons, List.sum_cons]
      cases hfirst : first item with
      | true =>
          simp only [hitem hfirst, if_true, Bool.false_eq_true, if_false, List.map_cons,
            List.sum_cons]
          omega
      | false =>
          cases second item <;>
            simp only [if_true, Bool.false_eq_true, if_false, List.map_cons, List.sum_cons] <;>
            omega

/-- No packet goes both to `arp_proc` and to the ICMP chain. -/
theorem ports_le (weight : List Beat → Nat) (stream : List (List L8Beat)) :
    ((ofEtype .arp stream).map weight).sum + ((icmpOf stream).map weight).sum ≤
      ((received stream).map weight).sum := by
  rw [icmpOf, IcmpProc.icmpPackets, ofEtype, ofEtype, List.filter_filter]
  apply sum_filter_disjoint
  intro packet harp
  simp [of_decide_eq_true harp]

/-- Every request accepted is answered or waits for it. -/
theorem Accounted.answered {scfifo : Scfifo} {words : scfifo.State → List (BitVec 80)}
    {addresses : Addresses} {pps : List (BitVec 8)} {state : State scfifo}
    (hstate : Accounted words addresses pps state) : Answered state.arp :=
  hstate.arp.holds (fun _ config => Answered config)
    (fun whole schedule => run_answered addresses schedule (ArpProc.start whole pps)
      (start_stored whole pps) rfl) []

/-- Frames are started for ARP packets and pulses. -/
theorem Accounted.frames_le {scfifo : Scfifo} {words : scfifo.State → List (BitVec 80)}
    {addresses : Addresses} {pps : List (BitVec 8)} {state : State scfifo}
    (hstate : Accounted words addresses pps state) {stream : List (List L8Beat)}
    (hstream : ∀ packet ∈ stream, IsPacket L8Beat.endofpacket packet ∧ Delivered packet)
    (hdelivered : state.toUlong2.accepted <+: stream.flatten) :
    state.arp.frames.length ≤ (ofEtype .arp stream).length + pps.length := by
  obtain ⟨later, hlater⟩ :=
    etype_output hstate (fun packet hmem => (hstream packet hmem).1) hdelivered .arp
  have hframes := hstate.arp.holds
    (fun whole config => config.frames.length ≤ whole.countP Beat.first + pps.length)
    (fun whole schedule => run_frames_le addresses whole pps schedule) later
  rw [hlater, countP_flatten] at hframes
  · exact hframes
  · intro packet hmem
    obtain ⟨wire, hwire, rfl⟩ := List.mem_map.mp (List.mem_filter.mp hmem).1
    exact (hstream wire hwire).2.sixBeats.2.countP_eq

/-- The server sends at most one packet for each packet received and each PPS pulse, and
no more beats than it has received and six for each pulse. -/
theorem server_bounded {scfifo : Scfifo} {words : scfifo.State → List (BitVec 80)}
    (hideal : scfifo.Ideal words) (addresses : Addresses) (pps : List (BitVec 8))
    (actions : List Action) (stream : List (List L8Beat))
    (hstream : ∀ packet ∈ stream, IsPacket L8Beat.endofpacket packet ∧ Delivered packet) :
    let state := run addresses (start scfifo pps) actions
    state.toUlong2.accepted <+: stream.flatten →
    state.transmitter.pktBuf.transferred.countP L8Beat.endofpacket ≤ stream.length + pps.length ∧
      state.transmitter.pktBuf.transferred.length ≤ stream.flatten.length + 6 * pps.length := by
  intro state hdelivered
  have hstate : Accounted words addresses pps state := run_accounted hideal pps actions
  have hpackets := fun packet hmem => (hstream packet hmem).1
  obtain ⟨partialMerge, hgiven, hicmp, htransferred⟩ := hstate.merges hpackets hdelivered
  have hperm := partialMerge.interleaves.perm
  obtain ⟨hsix, hframes⟩ := frames_length_le (ArpProc.reached_accounted hstate.arp)
    (partialMerge.isPacket .first) (hgiven .first)
  have hstarted := hstate.frames_le hstream hdelivered
  obtain ⟨hcount, hbeats⟩ := answered_le (icmpOf stream)
  constructor
  · -- one mark for each packet merged
    have hmarks : (partialMerge.merged.flatten.map onWire).countP L8Beat.endofpacket ≤
        partialMerge.merged.length := by
      rw [List.countP_map,
        ← countP_flatten fun packet hmem => (partialMerge.isPacket_merged packet hmem).countP_eq]
      apply List.countP_mono_left
      intro beat _ hend
      by_contra hmore
      rw [Function.comp_apply, endofpacket_onWire (by simpa using hmore)] at hend
      exact absurd hend (by decide)
    have hports := ports_le (fun _ => 1) stream
    simp only [List.map_const', List.sum_replicate_nat, Nat.mul_one] at hports
    have hlength := hperm.length_eq
    have hreplies := hicmp.length_le
    have hsent := htransferred.sublist.countP_le (p := L8Beat.endofpacket)
    rw [List.length_append] at hlength
    rw [received, List.length_map] at hports
    omega
  · have hports := ports_le List.length stream
    have hlength := (hperm.map List.length).sum_eq
    have hsent := htransferred.length_le
    have hreplies := (hicmp.map List.length).sublist.sum_le_sum (by simp)
    have hlong : ((ofEtype .arp stream).map List.length).length * 6 ≤
        ((ofEtype .arp stream).map List.length).sum := by
      refine List.card_nsmul_le_sum ((ofEtype .arp stream).map List.length) 6 ?_
      intro length hmem
      obtain ⟨packet, hpacket, rfl⟩ := List.mem_map.mp hmem
      obtain ⟨wire, hwire, rfl⟩ := List.mem_map.mp (List.mem_filter.mp hpacket).1
      exact (hstream wire hwire).2.sixBeats.1
    rw [List.map_append, List.sum_append, List.map_congr_left hsix, List.map_const',
      List.sum_replicate_nat] at hlength
    rw [List.length_map, List.length_flatten] at hsent
    have hreceived : ((received stream).map List.length).sum = stream.flatten.length := by
      rw [← List.length_flatten, flatten_received, List.length_map]
    rw [List.length_map] at hlong
    omega

theorem server_bounded_testArpRequest :
    (∀ packet ∈ [testArpRequest], IsPacket L8Beat.endofpacket packet ∧ Delivered packet) ∧
      (run .default (start Scfifo.list [0#8])
          (testActions testArpRequest 40)).transmitter.pktBuf.transferred.countP
          L8Beat.endofpacket ≤ 1 + 1 ∧
      (run .default (start Scfifo.list [0#8])
          (testActions testArpRequest 40)).transmitter.pktBuf.transferred.length ≤ 8 + 6 * 1 := by
  have hstream : ∀ packet ∈ [testArpRequest], IsPacket L8Beat.endofpacket packet ∧
      Delivered packet := by decide
  exact ⟨hstream, server_bounded Scfifo.list_ideal .default [0#8] (testActions testArpRequest 40)
    [testArpRequest] hstream (by decide +kernel)⟩

end IcmpServer.Server
