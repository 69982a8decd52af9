import IcmpServer.Server.Accounts
import Mathlib.Data.List.TakeWhile

/-! # What the server transmits

For whatever the receive MAC delivers, however the components are scheduled: what
the transmit MAC gets is at every moment the beginning of complete packets, each an
ARP frame or the echo of an ICMP packet that was received, the echoes in the order
of their requests.
-/

namespace IcmpServer.Server

open Elastic Rtl Transmit Receive

/-! ## Received packets -/

theorem last_fromWire (beat : L8Beat) : (fromWire beat).last = beat.endofpacket := by
  rw [Beat.last, (markers_fromWire beat).2.1]
  cases beat.endofpacket <;> rfl

/-- The packets of a stream as the components get them. -/
def received (stream : List (List L8Beat)) : List (List Beat) :=
  stream.map fun packet => packet.map fromWire

theorem received_isPacket {stream : List (List L8Beat)}
    (hstream : ∀ packet ∈ stream, IsPacket L8Beat.endofpacket packet) :
    ∀ packet ∈ received stream, IsPacket Beat.last packet := by
  intro packet hpacket
  obtain ⟨wire, hwire, rfl⟩ := List.mem_map.mp hpacket
  apply (hstream wire hwire).of_map_eq
  rw [List.map_map]
  exact List.map_congr_left fun beat _ => last_fromWire beat

theorem flatten_received (stream : List (List L8Beat)) :
    (received stream).flatten = stream.flatten.map fromWire :=
  List.map_flatten.symm

/-- The packets that go to a port of `rx_split_by_etype`. -/
def ofEtype (port : RxSplit.Etype) (stream : List (List L8Beat)) : List (List Beat) :=
  (received stream).filter fun packet => RxSplit.etypeRoute packet = port

/-- The packets that go to the ICMP chain. -/
def icmpOf (stream : List (List L8Beat)) : List (List Beat) :=
  IcmpProc.icmpPackets (ofEtype .ipv4 stream)

/-! ## Echoes -/

/-- The echoes of packets up to one that wedges the chain. -/
def answered (packets : List (List Beat)) : List (List Beat) :=
  (packets.takeWhile fun packet => !decide (IcmpProc.Wedges packet)).map IcmpProc.echoed

/-- What comes out of a packet that wedges it. -/
def cutOff (packets : List (List Beat)) : List Beat :=
  ((packets.dropWhile fun packet => !decide (IcmpProc.Wedges packet)).head?.map
    IcmpProc.echoed).getD []

theorem passed_flatten (packets : List (List Beat)) :
    (IcmpProc.passed packets).flatten = (answered packets).flatten ++ cutOff packets := by
  induction packets with
  | nil => rfl
  | cons packet rest ih =>
      by_cases hwedges : IcmpProc.Wedges packet
      · simp [IcmpProc.passed, answered, cutOff, hwedges]
      · simp only [IcmpProc.passed, hwedges, if_false, List.flatten_cons, ih]
        simp [answered, cutOff, hwedges]

/-- The echo of a wedging packet has no end. -/
theorem echoed_more {packet : List Beat} (hpacket : IsPacket Beat.last packet)
    (hwedges : IcmpProc.Wedges packet) : ∀ beat ∈ IcmpProc.echoed packet, beat.last = false := by
  have hcut := IcmpProc.passed_cutShort (List.forall_mem_singleton.mpr hpacket)
  rw [IcmpProc.passed, if_pos hwedges] at hcut
  cases hcut with
  | short hmore => exact hmore
  | cons hwhole _ =>
      have hlength := hwhole.length_eq_of_isPrefix hpacket (IcmpProc.map_last_echoed packet)
      exact absurd hlength (Nat.ne_of_lt (IcmpProc.length_echoed_of_wedges hwedges))

section Packets

variable {packets : List (List Beat)} (hpackets : ∀ packet ∈ packets, IsPacket Beat.last packet)
include hpackets

theorem answered_isPacket : ∀ packet ∈ answered packets, IsPacket Beat.last packet := by
  intro packet hpacket
  obtain ⟨source, hsource, rfl⟩ := List.mem_map.mp hpacket
  have hpasses := List.mem_takeWhile_imp hsource
  exact IcmpProc.echoed_isPacket (hpackets source ((List.takeWhile_prefix _).subset hsource))
    (by simpa using hpasses)

theorem cutOff_more : ∀ beat ∈ cutOff packets, beat.last = false := by
  unfold cutOff
  cases hrest : packets.dropWhile fun packet => !decide (IcmpProc.Wedges packet) with
  | nil => simp
  | cons packet rest =>
      have hmem : packet ∈ packets :=
        (List.dropWhile_suffix _).subset (hrest ▸ List.mem_cons_self)
      have hhead := List.head?_dropWhile_not (fun packet => !decide (IcmpProc.Wedges packet))
        packets
      rw [hrest] at hhead
      exact echoed_more (hpackets packet hmem) (by simpa using hhead)

end Packets

/-! ## Along the path -/

/-- A request for the gateway's address, or a reply made of requests accepted. -/
def IsArpFrame (addresses : ArpProc.Addresses) (requests : List ArpProc.Received)
    (frame : List Beat) : Prop :=
  frame = requestFrame addresses ∨
    ∃ sources : Nat → ArpProc.Received, (∀ offset < 6, sources offset ∈ requests) ∧
      frame = replyFrame addresses sources

section Path

variable {scfifo : Scfifo} {words : scfifo.State → List (BitVec 80)}
  {addresses : ArpProc.Addresses} {pps : List (BitVec 8)} {state : State scfifo}
  (hstate : Accounted words addresses pps state)
include hstate

/-- Complete frames that `arp_proc` has written. -/
theorem arpFrames {arp : List (List Beat)} (harp : ∀ packet ∈ arp, IsPacket Beat.last packet)
    (hwritten : arp.flatten <+: state.arp.output) :
    ∀ frame ∈ arp, IsArpFrame addresses state.arp.requests frame :=
  hstate.arp.holds
    (fun _ config => arp.flatten <+: config.output →
      ∀ frame ∈ arp, IsArpFrame addresses config.requests frame)
    (fun whole schedule => frame_of_run addresses whole pps schedule harp) [] hwritten

variable {stream : List (List L8Beat)}
  (hstream : ∀ packet ∈ stream, IsPacket L8Beat.endofpacket packet)
  (hdelivered : state.toUlong2.accepted <+: stream.flatten)
include hdelivered

/-- What has come out of the first converter. -/
theorem transferred_received :
    state.toUlong2.transferred.map unpack <+: (received stream).flatten := by
  have htransferred := hstate.toUlong2.lossless.transferred.map unpack
  rw [List.map_map] at htransferred
  rw [flatten_received]
  exact htransferred.trans (hdelivered.map fromWire)

include hstream

theorem etype_output (port : RxSplit.Etype) :
    state.etype.output port <+: (ofEtype port stream).flatten := by
  obtain ⟨later, hlater⟩ := transferred_received hstate hdelivered
  have hsplit := RxSplit.reached_accounted hstate.etype later
  rw [hlater] at hsplit
  have houtput := hsplit.output_isPrefix port
  rwa [packets_flatten _ (received_isPacket hstream)] at houtput

theorem chain_output :
    state.path.chain.output <+:
      (answered (icmpOf stream)).flatten ++ cutOff (icmpOf stream) := by
  obtain ⟨later, hlater⟩ := etype_output hstate hstream hdelivered .ipv4
  rw [← passed_flatten]
  refine hstate.path.holds
    (fun whole config => whole = (ofEtype .ipv4 stream).flatten →
      config.chain.output <+: (IcmpProc.passed (icmpOf stream)).flatten) ?_ later hlater
  rintro _ schedule rfl
  exact IcmpProc.path_output_isPrefix _
    (fun packet hmem => received_isPacket hstream packet (List.mem_filter.mp hmem).1) schedule

end Path

/-! ## The guarantee -/

theorem endofpacket_onWire {beat : Beat} (hmore : beat.last = false) :
    (onWire beat).endofpacket = false := by
  have heop : beat.eop = 0#8 := by simpa [Beat.last] using hmore
  rw [onWire, Converter.nextStage0, toL8, heop]
  rfl

theorem data_onWire {beat : Beat} (hmore : (onWire beat).endofpacket = false) :
    (onWire beat).data = beat.data := by
  change ulong2ToL8Remainder (beat.eop.getLsbD 0) _ _ = _
  have heop : beat.eop.getLsbD 0 = false := hmore
  rw [heop]
  rfl

theorem icmpOf_isPacket {stream : List (List L8Beat)}
    (hstream : ∀ packet ∈ stream, IsPacket L8Beat.endofpacket packet) :
    ∀ packet ∈ icmpOf stream, IsPacket Beat.last packet :=
  fun packet hmem => received_isPacket hstream packet
    (List.mem_filter.mp (List.mem_filter.mp hmem).1).1

/-- The packet buffer gets the first merged beats, converted. -/
theorem Accounted.wired {scfifo : Scfifo} {words : scfifo.State → List (BitVec 80)}
    {addresses : ArpProc.Addresses} {pps : List (BitVec 8)} {state : State scfifo}
    (hstate : Accounted words addresses pps state) :
    state.transmitter.pktBuf.accepted <+: state.merge.output.map onWire := by
  have htoL8 := hstate.transmitter.toL8.lossless.transferred
  have hconvert : state.transmitter.toL8.accepted.map ulong2ToL8.convert =
      (state.transmitter.toL8.accepted.map unpack).map onWire := by
    rw [List.map_map]
    exact List.map_congr_left fun word _ => convert_eq word
  rw [hconvert] at htoL8
  rw [hstate.transmitter.wired, hstate.merged, List.map_append]
  exact htoL8.trans (List.prefix_append _ _)

/-- Nothing of a packet without its end comes out of the packet buffer. -/
theorem transferred_whole {scfifo : Scfifo} {words : scfifo.State → List (BitVec 80)}
    {addresses : ArpProc.Addresses} {pps : List (BitVec 8)} {state : State scfifo}
    (hstate : Accounted words addresses pps state) {whole piece : List Beat}
    (hsent : state.merge.sent = whole ++ piece) (hpiece : ∀ beat ∈ piece, beat.last = false) :
    state.transmitter.pktBuf.transferred <+: whole.map onWire := by
  have hwritten : state.merge.output <+: whole ++ piece := by
    rw [← hsent]
    exact List.prefix_append _ _
  have hwired : state.transmitter.pktBuf.accepted <+:
      whole.map onWire ++ piece.map onWire := by
    rw [← List.map_append]
    exact hstate.wired.trans (hwritten.map onWire)
  apply hstate.transmitter.released.isPrefix hwired
  intro item hitem
  obtain ⟨beat, hbeat, rfl⟩ := List.mem_map.mp hitem
  exact endofpacket_onWire (hpiece beat hbeat)

section Account

variable {scfifo : Scfifo} {words : scfifo.State → List (BitVec 80)}
  {addresses : ArpProc.Addresses} {pps : List (BitVec 8)} {state : State scfifo}
  (hstate : Accounted words addresses pps state) {stream : List (List L8Beat)}
  (hstream : ∀ packet ∈ stream, IsPacket L8Beat.endofpacket packet)
  (hdelivered : state.toUlong2.accepted <+: stream.flatten)
include hstate hstream hdelivered

/-- The merge that the transmit MAC gets. -/
theorem Accounted.merges :
    ∃ partialMerge : PartialMerge Beat.last,
      (∀ lane, (partialMerge.whole lane).flatten <+: state.given lane) ∧
      partialMerge.whole .second <+: answered (icmpOf stream) ∧
      state.transmitter.pktBuf.transferred <+: partialMerge.merged.flatten.map onWire := by
  obtain ⟨taken, htaken, partialMerge, rfl, hsent, -⟩ := hstate.merge
  have hgiven : ∀ lane, (partialMerge.whole lane).flatten <+: state.given lane := by
    intro lane
    rw [htaken lane, PartialMerge.taken, List.append_assoc]
    exact List.prefix_append _ _
  have hicmp := icmpOf_isPacket hstream
  refine ⟨partialMerge, hgiven, ?_, transferred_whole hstate hsent partialMerge.more⟩
  exact isPrefix_of_flatten (partialMerge.isPacket .second) (answered_isPacket hicmp)
    (cutOff_more hicmp) ((hgiven .second).trans (chain_output hstate hstream hdelivered))

theorem Accounted.transmits :
    ∃ frames replies merged, Interleaves frames replies merged ∧
      state.transmitter.pktBuf.transferred <+: merged.flatten.map onWire ∧
      (∀ frame ∈ frames, IsArpFrame addresses state.arp.requests frame) ∧
      replies <+: answered (icmpOf stream) := by
  obtain ⟨partialMerge, hgiven, hicmp, htransferred⟩ := hstate.merges hstream hdelivered
  exact ⟨partialMerge.whole .first, partialMerge.whole .second, partialMerge.merged,
    partialMerge.interleaves, htransferred,
    arpFrames hstate (partialMerge.isPacket .first) (hgiven .first), hicmp⟩

end Account

/-- In every run of the server, what the transmit MAC has got is the beginning of a
merge of ARP frames and echoes, all of them complete: the echoes are those of the
ICMP packets received, in order, up to one that wedges the chain. -/
theorem server_transmits {scfifo : Scfifo} {words : scfifo.State → List (BitVec 80)}
    (hideal : scfifo.Ideal words) (addresses : ArpProc.Addresses) (pps : List (BitVec 8))
    (actions : List Action) (stream : List (List L8Beat))
    (hstream : ∀ packet ∈ stream, IsPacket L8Beat.endofpacket packet) :
    let state := run addresses (start scfifo pps) actions
    state.toUlong2.accepted <+: stream.flatten →
    ∃ frames replies merged, Interleaves frames replies merged ∧
      state.transmitter.pktBuf.transferred <+: merged.flatten.map onWire ∧
      (∀ frame ∈ frames, IsArpFrame addresses state.arp.requests frame) ∧
      replies <+: answered (icmpOf stream) :=
  fun hdelivered => (run_accounted hideal pps actions).transmits hstream hdelivered

/-! ## A ping -/

/-- An echo request without data as the MAC delivers it, padded to 60 bytes. -/
def testPing : List L8Beat :=
  [⟨0x00005e00016654bf#64, true, false, 0#3⟩,
    ⟨0x648042d808004500#64, false, false, 0#3⟩,
    ⟨0x001c02de00008001#64, false, false, 0#3⟩,
    ⟨0x0000ac1f18873dd3#64, false, false, 0#3⟩,
    ⟨0xe2040800f7fe0001#64, false, false, 0#3⟩,
    ⟨0x0000000000000000#64, false, false, 0#3⟩,
    ⟨0x0000000000000000#64, false, false, 0#3⟩,
    ⟨0x0000000000000000#64, false, true, 4#3⟩]

/-- A clock edge of every circuit and a call of every component in turn, nothing
refused. -/
def served (beat : L8Beat) (inValid : Bool) : List Action :=
  [.toUlong2 ⟨beat, inValid, true⟩,
    .etype ⟨true, fun _ => true⟩,
    .path (.split ⟨true, fun _ => true⟩),
    .path (.chain ⟨.inl (.inl (.inl ())), true, true⟩),
    .path (.chain ⟨.inl (.inl (.inr ())), true, true⟩),
    .path (.chain ⟨.inl (.inr ()), true, true⟩),
    .path (.chain ⟨.inr (), true, true⟩),
    .arp ArpProc.served,
    .merge ⟨true, true, true⟩,
    .transmitter 0#40 true true]

/-- The packet, one beat a cycle, and cycles enough to pass its echo on. -/
def testActions (packet : List L8Beat) (cycles : Nat) : List Action :=
  served ⟨0#64, false, false, 0#3⟩ false ++ packet.flatMap (served · true) ++
    (List.replicate cycles (served ⟨0#64, false, false, 0#3⟩ false)).flatten

theorem server_transmits_testPing :
    let state := run .default (start Scfifo.list []) (testActions testPing 40)
    (∀ packet ∈ [testPing], IsPacket L8Beat.endofpacket packet) ∧
      state.transmitter.pktBuf.transferred.length = 8 ∧
      ∃ frames replies merged, Interleaves frames replies merged ∧
        state.transmitter.pktBuf.transferred <+: merged.flatten.map onWire ∧
        (∀ frame ∈ frames, IsArpFrame .default state.arp.requests frame) ∧
        replies <+: answered (icmpOf [testPing]) := by
  have hstream : ∀ packet ∈ [testPing], IsPacket L8Beat.endofpacket packet := by decide
  exact ⟨hstream, by decide +kernel,
    server_transmits Scfifo.list_ideal .default [] (testActions testPing 40) [testPing] hstream
      (by decide +kernel)⟩

end IcmpServer.Server
