import IcmpServer.Server.Causality

/-! # The silenced server

A packet that wedges the ICMP chain comes out of it without an end, and nothing comes
out behind it. Once `tx_merge` has taken a beat of it, `port_select` stays at the ICMP
lane: the packet buffer waits for the end of the packet, and neither an echo nor an ARP
frame is sent any more, whatever the MAC delivers.
-/

namespace IcmpServer.Server

open Elastic Rtl Transmit Receive

variable {scfifo : Scfifo} {words : scfifo.State → List (BitVec 80)}
  {addresses : ArpProc.Addresses} {pps : List (BitVec 8)} {stream : List (List L8Beat)}

/-- An ICMP packet that wedges the chain has been delivered to its end, and `tx_merge` has
taken more of the ICMP lane than the echoes in front of it. -/
def Jammed (state : State scfifo) : Prop :=
  let delivered := icmpOf (completed L8Beat.endofpacket state.toUlong2.accepted)
  (∃ packet ∈ delivered, IcmpProc.Wedges packet) ∧
    (answered delivered).flatten.length + state.merge.ipv4.length < state.path.chain.output.length

instance (state : State scfifo) : Decidable (Jammed state) :=
  inferInstanceAs (Decidable ((∃ packet ∈ icmpOf (completed _ _), _) ∧ _ < _))

/-- Behind the packets sent a packet is open whose end never comes. -/
structure Silenced (stream : List (List L8Beat)) (merged : List (List Beat))
    (state : State scfifo) : Prop where
  port : state.merge.state.portSelect = .ipv4
  opened : ∃ piece, state.merge.sent = merged.flatten ++ piece ∧
    state.path.chain.output =
      (answered (icmpOf stream)).flatten ++ (piece ++ state.merge.ipv4)

/-! ## Nothing behind a packet that wedges -/

theorem passed_append_of_wedges {packets : List (List Beat)}
    (hwedges : ∃ packet ∈ packets, IcmpProc.Wedges packet) (more : List (List Beat)) :
    IcmpProc.passed (packets ++ more) = IcmpProc.passed packets := by
  induction packets with
  | nil => simp at hwedges
  | cons packet rest ih =>
      rw [List.cons_append, IcmpProc.passed, IcmpProc.passed]
      split_ifs with hnow
      · rfl
      · rw [ih]
        obtain ⟨other, hmem, hother⟩ := hwedges
        exact ⟨other, (List.mem_cons.mp hmem).resolve_left fun heq => hnow (heq ▸ hother), hother⟩

/-- A stream of packets has been delivered, one of which wedges the chain. -/
structure Wedged (stream : List (List L8Beat)) (state : State scfifo) : Prop where
  packets : ∀ packet ∈ stream, IsPacket L8Beat.endofpacket packet
  wedges : ∃ packet ∈ icmpOf stream, IcmpProc.Wedges packet
  delivered : stream.flatten <+: state.toUlong2.accepted

section Account

variable {state : State scfifo} (hstate : Accounted words addresses pps state)
  (hwedged : Wedged stream state)
include hstate hwedged

/-- Whatever has been delivered behind the stream, nothing of it comes out of the chain. -/
theorem Wedged.chain_output :
    state.path.chain.output <+:
      (answered (icmpOf stream)).flatten ++ cutOff (icmpOf stream) := by
  obtain ⟨rest, hrest⟩ := hwedged.delivered
  obtain ⟨whole, piece, rfl, hwhole, hpiece⟩ := exists_cut L8Beat.endofpacket rest
  have hpackets : ∀ packet ∈ stream ++ whole, IsPacket L8Beat.endofpacket packet :=
    fun packet hmem => (List.mem_append.mp hmem).elim (hwedged.packets packet) (hwhole packet)
  rw [← List.append_assoc, ← List.flatten_append] at hrest
  obtain ⟨hmore, hdelivered⟩ := accepted_lengthened hpackets hpiece hrest.symm 0
  have hinitial := Server.chain_output hstate hmore hdelivered
  rwa [← passed_flatten, List.append_assoc, icmpOf_append,
    passed_append_of_wedges hwedged.wedges, passed_flatten] at hinitial

/-- Beats behind the complete echoes have no mark. -/
theorem more_of_output {rest : List Beat}
    (houtput : state.path.chain.output = (answered (icmpOf stream)).flatten ++ rest) :
    ∀ beat ∈ rest, beat.last = false := by
  have hinitial := hwedged.chain_output hstate
  rw [houtput, List.prefix_append_right_inj] at hinitial
  exact fun beat hbeat =>
    cutOff_more (icmpOf_isPacket hwedged.packets) beat (hinitial.subset hbeat)

theorem Wedged.silenced (htaken : (answered (icmpOf stream)).flatten.length +
      state.merge.ipv4.length < state.path.chain.output.length) :
    Silenced stream (completed Beat.last state.merge.sent) state := by
  obtain ⟨taken, hlanes, partialMerge, rfl, hsent, -⟩ := hstate.merge
  have hicmp := icmpOf_isPacket hwedged.packets
  have houtput := hwedged.chain_output hstate
  have hgiven : state.path.chain.output =
      partialMerge.taken state.merge.state.portSelect.lane .second ++ state.merge.ipv4 :=
    hlanes .second
  have hlength := congrArg List.length hgiven
  rw [PartialMerge.taken] at hgiven hlength
  rw [hgiven] at houtput
  have hwhole : partialMerge.whole .second <+: answered (icmpOf stream) :=
    isPrefix_of_flatten (partialMerge.isPacket .second) (answered_isPacket hicmp)
      (cutOff_more hicmp) ((List.prefix_append _ _).trans ((List.append_assoc _ _ _) ▸ houtput))
  simp only [List.length_append] at hlength
  by_cases hcurrent : state.merge.state.portSelect.lane = some .second
  · rw [if_pos hcurrent] at hgiven hlength houtput
    have hall : partialMerge.whole .second = answered (icmpOf stream) :=
      eq_of_opened (partialMerge.isPacket .second) (answered_isPacket hicmp)
        partialMerge.more (cutOff_more hicmp) ((List.prefix_append _ _).trans houtput) (by omega)
    have hmerged : completed Beat.last state.merge.sent = partialMerge.merged :=
      (congrArg _ hsent).trans partialMerge.completed_output
    rw [hmerged]
    refine ⟨?_, partialMerge.piece, hsent, ?_⟩
    · cases hport : state.merge.state.portSelect <;> simp_all [TxMerge.PortSelect.lane]
    · rw [hgiven, hall, List.append_assoc]
  · -- no packet of the lane is open: what was taken are complete echoes
    rw [if_neg hcurrent] at hlength
    obtain ⟨others, hothers⟩ := hwhole
    rw [← hothers, List.flatten_append, List.length_append] at htaken
    simp only [List.length_nil] at hlength
    omega

end Account

/-! ## No step ends it -/

/-- What the MAC has delivered stays delivered. -/
theorem accepted_step (state : State scfifo) (action : Action) :
    state.toUlong2.accepted <+: (step addresses state action).toUlong2.accepted := by
  cases action with
  | toUlong2 cycle => exact List.prefix_append _ _
  | _ => exact List.prefix_rfl

theorem Wedged.step {state : State scfifo} (hwedged : Wedged stream state) (action : Action) :
    Wedged stream (step addresses state action) :=
  { hwedged with delivered := hwedged.delivered.trans (accepted_step state action) }

/-- A call of the merger takes another beat without a mark or none. -/
theorem Silenced.merge {merged : List (List Beat)} {state : State scfifo}
    (hstate : Accounted words addresses pps state) (hwedged : Wedged stream state)
    (hsilenced : Silenced stream merged state) (call : TxMerge.Call) :
    Silenced stream merged (Server.step addresses state (.merge call)) := by
  obtain ⟨hport, piece, hsent, houtput⟩ := hsilenced
  cases TxMerge.step_effect state.merge call with
  | arp beat hother => exact absurd hport hother
  | ipv4 beat _ hipv4 _ hnext hselect =>
      rw [hipv4] at houtput
      have hmore := more_of_output hstate hwedged houtput beat (by simp)
      refine ⟨?_, piece ++ [beat], ?_, ?_⟩
      · rwa [hmore] at hselect
      · exact hnext.trans (by rw [hsent, List.append_assoc])
      · exact houtput.trans (by rw [List.append_assoc]; rfl)
  | stay _ hipv4 hnext hselect =>
      exact ⟨hselect.trans hport, piece, hnext.trans hsent, houtput.trans (by rw [← hipv4]; rfl)⟩

theorem step_silenced {merged : List (List Beat)} {state : State scfifo}
    (hstate : Accounted words addresses pps state) (hwedged : Wedged stream state)
    (hsilenced : Silenced stream merged state) (action : Action) :
    Silenced stream merged (step addresses state action) := by
  obtain ⟨hport, piece, hsent, houtput⟩ := hsilenced
  cases action with
  | merge call => exact Silenced.merge hstate hwedged ⟨hport, piece, hsent, houtput⟩ call
  | path call =>
      have hgrows := append_fresh (chain_grows hstate.chain_inv call)
      refine ⟨hport, piece, hsent, hgrows.symm.trans ?_⟩
      have hlane := TxMerge.feed_lane state.merge .second .second
        (fresh state.path.chain.output (IcmpProc.pathStep state.path call).chain.output)
      rw [if_pos rfl] at hlane
      refine (congrArg (· ++ fresh _ _) houtput).trans ?_
      rw [List.append_assoc, List.append_assoc]
      exact congrArg (fun lane => _ ++ (piece ++ lane)) hlane.symm
  | arp call => exact ⟨hport, piece, hsent, houtput⟩
  | toUlong2 cycle => exact ⟨hport, piece, hsent, houtput⟩
  | etype call => exact ⟨hport, piece, hsent, houtput⟩
  | etypeDsc deliver => exact ⟨hport, piece, hsent, houtput⟩
  | ipv4protoDsc deliver => exact ⟨hport, piece, hsent, houtput⟩
  | transmitter padding inValid outReady => exact ⟨hport, piece, hsent, houtput⟩

/-- What holds of a silenced server, and goes on to hold. -/
structure Silent (words : scfifo.State → List (BitVec 80)) (addresses : ArpProc.Addresses)
    (pps : List (BitVec 8)) (stream : List (List L8Beat)) (merged : List (List Beat))
    (state : State scfifo) : Prop where
  accounted : Accounted words addresses pps state
  wedged : Wedged stream state
  silenced : Silenced stream merged state

theorem step_silent (hideal : scfifo.Ideal words) {merged : List (List Beat)}
    (state : State scfifo) (action : Action)
    (hstate : Silent words addresses pps stream merged state) :
    Silent words addresses pps stream merged (step addresses state action) where
  accounted := step_accounted hideal state action hstate.accounted
  wedged := hstate.wedged.step action
  silenced := step_silenced hstate.accounted hstate.wedged hstate.silenced action

/-- A silenced server transmits whole packets of those merged before. -/
theorem Silent.transferred {merged : List (List Beat)} {state : State scfifo}
    (hstate : Silent words addresses pps stream merged state) :
    state.transmitter.pktBuf.transferred <+: merged.flatten.map onWire := by
  obtain ⟨piece, hsent, houtput⟩ := hstate.silenced.opened
  exact transferred_whole hstate.accounted hsent fun beat hbeat =>
    more_of_output hstate.accounted hstate.wedged houtput beat (List.mem_append_left _ hbeat)

/-- From the moment `tx_merge` has taken a beat of a packet that wedged the chain, the
transmit MAC gets the packets that had been merged to their end by then and nothing else,
in every continuation and whatever is received: no echo, no ARP reply and no ARP request. -/
theorem server_silenced {scfifo : Scfifo} {words : scfifo.State → List (BitVec 80)}
    (hideal : scfifo.Ideal words) (addresses : ArpProc.Addresses) (pps : List (BitVec 8))
    (before : List Action) :
    let state := run addresses (start scfifo pps) before
    Jammed state → ∀ later,
      (run addresses state later).transmitter.pktBuf.transferred <+:
        (completed Beat.last state.merge.sent).flatten.map onWire := by
  intro state ⟨hwedges, htaken⟩ later
  obtain ⟨piece, haccepted, -⟩ := exists_incomplete L8Beat.endofpacket state.toUlong2.accepted
  have hstate : Accounted words addresses pps state := run_accounted hideal pps before
  have hwedged : Wedged (completed L8Beat.endofpacket state.toUlong2.accepted) state :=
    ⟨completed_isPacket, hwedges, ⟨piece, haccepted.symm⟩⟩
  exact Silent.transferred (foldl_invariant (step_silent hideal) later state
    ⟨hstate, hwedged, hwedged.silenced hstate htaken⟩)

/-- An ICMP packet of 26 bytes as the MAC delivers it. -/
def shortPing : List L8Beat :=
  [⟨0x00005e00016654bf#64, true, false, 0#3⟩,
    ⟨0x648042d808004500#64, false, false, 0#3⟩,
    ⟨0x003c02de00008001#64, false, false, 0#3⟩,
    ⟨0x0000000000000000#64, false, true, 6#3⟩]

/-- A ping has been answered in front of it; its echo is the last packet sent. -/
theorem server_silenced_shortPing :
    let state := run .default (start Scfifo.list []) (testActions (testPing ++ shortPing) 40)
    Jammed state ∧ state.transmitter.pktBuf.transferred.length = 8 ∧
      (completed Beat.last state.merge.sent).map List.length = [8] ∧ ∀ later,
        (run .default state later).transmitter.pktBuf.transferred <+:
          (completed Beat.last state.merge.sent).flatten.map onWire := by
  have hjammed : Jammed
      (run .default (start Scfifo.list []) (testActions (testPing ++ shortPing) 40)) := by
    decide +kernel
  exact ⟨hjammed, by decide +kernel, by decide +kernel, server_silenced Scfifo.list_ideal
    .default [] (testActions (testPing ++ shortPing) 40) hjammed⟩

end IcmpServer.Server
