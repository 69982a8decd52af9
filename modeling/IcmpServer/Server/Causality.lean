import IcmpServer.Server.Bounds

/-! # No echo before its request

The ICMP chain passes beats on before it has their packet, the packet buffer does
not: when the transmit MAC gets the first beat of an echo, the receive MAC has
delivered all of its request. What is said of a stream of packets holds of the
packets that have been delivered to their end, whatever they are.
-/

namespace IcmpServer.Server

open Elastic Rtl Transmit Receive

/-- A packet in the midst of its delivery, as it would be with `count` more beats in
front of its final one. -/
def lengthened (piece : List L8Beat) (count : Nat) : List L8Beat :=
  piece ++ (List.replicate count ⟨0#64, false, false, 0#3⟩ ++ [⟨0#64, false, true, 0#3⟩])

theorem lengthened_isPacket {piece : List L8Beat}
    (hpiece : ∀ beat ∈ piece, L8Beat.endofpacket beat = false) (count : Nat) :
    IsPacket L8Beat.endofpacket (lengthened piece count) := by
  refine IsPacket.append hpiece (IsPacket.append ?_ (IsPacket.final rfl))
  intro beat hmem
  rw [List.eq_of_mem_replicate hmem]

theorem length_lengthened (piece : List L8Beat) (count : Nat) :
    (lengthened piece count).length = piece.length + (count + 1) := by
  rw [lengthened, List.length_append, List.length_append, List.length_replicate]
  rfl

/-- Nothing that comes out of packets is longer than they are. -/
theorem passed_length_le (packets : List (List Beat)) :
    (IcmpProc.passed packets).flatten.length ≤ (packets.map List.length).sum := by
  induction packets with
  | nil => exact Nat.le_refl _
  | cons packet rest ih =>
      have hechoed := IcmpProc.length_echoed packet
      rw [IcmpProc.passed, List.map_cons, List.sum_cons]
      split_ifs with hwedges
      · rw [List.flatten_cons, List.flatten_nil, List.append_nil]
        omega
      · rw [List.flatten_cons, List.length_append]
        omega

/-- One more packet has at most one more answer. -/
theorem answered_append_singleton (packets : List (List Beat)) (packet : List Beat)
    {replies : List (List Beat)} (hreplies : replies <+: answered (packets ++ [packet])) :
    replies <+: answered packets ∨
      IcmpProc.echoed packet ∈ replies ∧ ¬ IcmpProc.Wedges packet := by
  rw [answered, List.takeWhile_append] at hreplies
  split_ifs at hreplies with hall
  · by_cases hwedges : IcmpProc.Wedges packet
    · left
      rw [List.takeWhile_cons_of_neg (by simp [hwedges]), List.append_nil] at hreplies
      have hwhole : packets.takeWhile (fun packet => !decide (IcmpProc.Wedges packet)) = packets :=
        (List.takeWhile_prefix _).eq_of_length hall
      rwa [answered, hwhole]
    · rw [List.takeWhile_cons_of_pos (by simp [hwedges]), List.takeWhile_nil, List.map_append,
        List.map_singleton, List.prefix_concat_iff] at hreplies
      have hwhole : packets.takeWhile (fun packet => !decide (IcmpProc.Wedges packet)) = packets :=
        (List.takeWhile_prefix _).eq_of_length hall
      rcases hreplies with rfl | hreplies
      · exact Or.inr ⟨by simp, hwedges⟩
      · left
        rwa [answered, hwhole]
  · exact Or.inl hreplies

theorem icmpOf_append (front rest : List (List L8Beat)) :
    icmpOf (front ++ rest) = icmpOf front ++ icmpOf rest := by
  simp only [icmpOf, IcmpProc.icmpPackets, ofEtype, received, List.map_append, List.filter_append]

theorem icmpOf_singleton (packet : List L8Beat) :
    icmpOf [packet] = [] ∨ icmpOf [packet] = [packet.map fromWire] := by
  apply List.sublist_singleton.mp
  exact List.filter_sublist.trans List.filter_sublist

/-- An answer as long as the packet is needed to answer it. -/
theorem answered_of_short {stream : List (List L8Beat)} {packet : List L8Beat}
    {replies : List (List Beat)} (hreplies : replies <+: answered (icmpOf (stream ++ [packet])))
    (hshort : replies.flatten.length < packet.length) : replies <+: answered (icmpOf stream) := by
  rw [icmpOf_append] at hreplies
  rcases icmpOf_singleton packet with hnone | hone
  · rwa [hnone, List.append_nil] at hreplies
  · rw [hone] at hreplies
    refine (answered_append_singleton _ _ hreplies).resolve_right ?_
    rintro ⟨hmem, hpasses⟩
    have hlength := IcmpProc.length_echoed_of_passes hpasses
    rw [List.length_map] at hlength
    have hwithin := (List.sublist_flatten_of_mem hmem).length_le
    omega

section Account

variable {scfifo : Scfifo} {words : scfifo.State → List (BitVec 80)}
  {addresses : ArpProc.Addresses} {pps : List (BitVec 8)} {state : State scfifo}
  {whole : List (List L8Beat)} {piece : List L8Beat}
  (hwhole : ∀ packet ∈ whole, IsPacket L8Beat.endofpacket packet)
  (hpiece : ∀ beat ∈ piece, L8Beat.endofpacket beat = false)
  (haccepted : state.toUlong2.accepted = whole.flatten ++ piece)
include hwhole hpiece haccepted

/-- The packets as they would be with more beats of the one in the midst. -/
theorem accepted_lengthened (count : Nat) :
    (∀ packet ∈ whole ++ [lengthened piece count], IsPacket L8Beat.endofpacket packet) ∧
      state.toUlong2.accepted <+: (whole ++ [lengthened piece count]).flatten := by
  constructor
  · intro packet hmem
    rcases List.mem_append.mp hmem with hmem | hmem
    · exact hwhole packet hmem
    · rw [List.mem_singleton.mp hmem]
      exact lengthened_isPacket hpiece count
  · rw [haccepted, List.flatten_append, List.flatten_singleton, lengthened, ← List.append_assoc]
    exact List.prefix_append _ _

variable (hstate : Accounted words addresses pps state)
include hstate

/-- The chain has not written more than the MAC would have delivered with the next beat. -/
theorem chain_length_le :
    state.path.chain.output.length ≤ state.toUlong2.accepted.length + 1 := by
  obtain ⟨hpackets, hdelivered⟩ := accepted_lengthened hwhole hpiece haccepted 0
  have houtput := (chain_output hstate hpackets hdelivered).length_le
  rw [← passed_flatten] at houtput
  have hpassed := passed_length_le (icmpOf (whole ++ [lengthened piece 0]))
  have hports := ports_le List.length (whole ++ [lengthened piece 0])
  have hlengths : ((received (whole ++ [lengthened piece 0])).map List.length).sum =
      state.toUlong2.accepted.length + 1 := by
    rw [← List.length_flatten, flatten_received, List.length_map, List.flatten_append,
      List.flatten_singleton, List.length_append, length_lengthened, haccepted, List.length_append]
    omega
  omega

theorem transmits_completed :
    ∃ frames replies merged, Interleaves frames replies merged ∧
      state.transmitter.pktBuf.transferred <+: merged.flatten.map onWire ∧
      (∀ frame ∈ frames, IsPacket Beat.last frame) ∧ frames.flatten <+: state.arp.output ∧
      replies <+: answered (icmpOf whole) := by
  have hbound := chain_length_le hwhole hpiece haccepted hstate
  -- a packet in the midst longer than everything the chain has written
  obtain ⟨hpackets, hdelivered⟩ := accepted_lengthened hwhole hpiece haccepted
    (state.toUlong2.accepted.length + 1)
  obtain ⟨partialMerge, hgiven, hicmp, htransferred⟩ := hstate.merges hpackets hdelivered
  refine ⟨partialMerge.whole .first, partialMerge.whole .second, partialMerge.merged,
    partialMerge.interleaves, htransferred, partialMerge.isPacket .first, hgiven .first, ?_⟩
  apply answered_of_short hicmp
  have hwritten : (partialMerge.whole .second).flatten.length ≤ state.path.chain.output.length :=
    (hgiven .second).length_le
  rw [length_lengthened]
  omega

end Account

/-- In every run of the server, the echoes that the transmit MAC has got the beginning
of are those of ICMP packets that the receive MAC has delivered to their end. -/
theorem server_causal {scfifo : Scfifo} {words : scfifo.State → List (BitVec 80)}
    (hideal : scfifo.Ideal words) (addresses : ArpProc.Addresses) (pps : List (BitVec 8))
    (actions : List Action) :
    let state := run addresses (start scfifo pps) actions
    ∃ frames replies merged, Interleaves frames replies merged ∧
      state.transmitter.pktBuf.transferred <+: merged.flatten.map onWire ∧
      (∀ frame ∈ frames, IsArpFrame addresses state.arp.requests frame) ∧
      replies <+: answered (icmpOf (completed L8Beat.endofpacket state.toUlong2.accepted)) := by
  intro state
  obtain ⟨piece, haccepted, hpiece⟩ :=
    exists_incomplete L8Beat.endofpacket state.toUlong2.accepted
  have hstate : Accounted words addresses pps state := run_accounted hideal pps actions
  obtain ⟨frames, replies, merged, hmerged, htransferred, hpackets, hwritten, hreplies⟩ :=
    transmits_completed completed_isPacket hpiece haccepted hstate
  exact ⟨frames, replies, merged, hmerged, htransferred, arpFrames hstate hpackets hwritten,
    hreplies⟩

/-- A ping, and all of another but its last beat. -/
theorem server_causal_testPing :
    let state := run .default (start Scfifo.list []) (testActions (testPing ++ testPing.take 7) 40)
    completed L8Beat.endofpacket state.toUlong2.accepted = [testPing] ∧
      state.transmitter.pktBuf.transferred.length = 8 ∧
      ∃ frames replies merged, Interleaves frames replies merged ∧
        state.transmitter.pktBuf.transferred <+: merged.flatten.map onWire ∧
        (∀ frame ∈ frames, IsArpFrame .default state.arp.requests frame) ∧
        replies <+: answered (icmpOf (completed L8Beat.endofpacket state.toUlong2.accepted)) := by
  refine ⟨by decide +kernel, by decide +kernel, ?_⟩
  exact server_causal Scfifo.list_ideal .default []
    (testActions (testPing ++ testPing.take 7) 40)

end IcmpServer.Server
