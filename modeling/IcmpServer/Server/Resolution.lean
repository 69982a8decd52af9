import IcmpServer.Server.Liveness

/-! # ARP requests are answered

How many replies there are depends on the schedule: a request that finds a reply
pending is dropped. But the first request is never dropped, none is answered twice, and
nothing else is answered.
-/

namespace IcmpServer.Server

open Elastic Rtl Transmit Receive ArpProc

/-- The ARP packets received that are requests for `OWN_IP`. -/
def requestsOf (addresses : Addresses) (stream : List (List L8Beat)) : List Received :=
  ((ofEtype .arp stream).map packetFields).filter fun recv => recv.ForOwnIp addresses

section Settled

variable {scfifo : Scfifo} {words : scfifo.State → List (BitVec 80)} {addresses : Addresses}
  {pps : List (BitVec 8)} {stream : List (List L8Beat)} {state : State scfifo}

/-- What an ARP packet of the stream shows. -/
theorem shown_ofEtype (hstream : ∀ packet ∈ stream, Delivered packet) :
    forOwnIp addresses (ofEtype .arp stream).flatten = (requestsOf addresses stream).length := by
  rw [forOwnIp, shown_packets (sixBeats_ofEtype hstream .arp), requestsOf,
    List.countP_eq_length_filter]

/-- At rest nothing is unread. -/
theorem unread_of_rest {config : Config} (hrest : config.work = 0) :
    config.unread addresses = 0 := by
  rw [Config.work] at hrest
  have hinput : config.input = [] := List.length_eq_zero_iff.mp (by omega)
  have hstage0 : config.state.inStage0 = none := by
    cases hstage0 : config.state.inStage0 with
    | none => rfl
    | some beat =>
        rw [hstage0] at hrest
        simp [occupied] at hrest
  rw [Config.unread, forOwnIp, shown_of_short]
  · rfl
  · simp [ArpState.window, hinput, hstage0]

/-- Of the requests received at most one reply each is sent, and at least one in all. -/
theorem Rested.requests (hstate : Rested words addresses pps stream state)
    (hstream : ∀ packet ∈ stream, IsPacket L8Beat.endofpacket packet ∧ Delivered packet) :
    state.arp.requests.length ≤ (requestsOf addresses stream).length ∧
      (requestsOf addresses stream ≠ [] → state.arp.requests ≠ []) := by
  have hgiven := hstate.etype_output_eq (fun packet hmem => (hstream packet hmem).1) .arp
  have hrun := hstate.accounted.arp.holds (fun whole config =>
    config.requests.length + config.unread addresses ≤ forOwnIp addresses whole ∧
      (config.requests = [] → config.unread addresses = forOwnIp addresses whole))
    (fun whole schedule => run_requests addresses whole pps schedule) []
  have hsame : (machine addresses pps).feed state.arp [] = state.arp :=
    congrArg (fun input => { state.arp with input }) (List.append_nil _)
  have hall : forOwnIp addresses (ofEtype .arp stream).flatten =
      (requestsOf addresses stream).length :=
    shown_ofEtype fun packet hmem => (hstream packet hmem).2
  simp only [hsame, List.append_nil, hgiven, hall, unread_of_rest hstate.arp,
    Nat.add_zero] at hrun
  refine ⟨hrun.1, fun hsome hnone => hsome ?_⟩
  exact List.length_eq_zero_iff.mp (hrun.2 hnone).symm

/-- An accepted request is one of those received. -/
theorem mem_requestsOf (hstream : ∀ packet ∈ stream, Delivered packet) {request : Received}
    (hrequest : Requested addresses stream request) : request ∈ requestsOf addresses stream := by
  obtain ⟨packet, hpacket, hroute, hreceived, hop, hown⟩ := hrequest
  have hfields := packetReceived_eq (hstream packet hpacket).sixBeats.1 []
  rw [List.append_nil, hreceived] at hfields
  refine List.mem_filter.mpr ⟨?_, decide_eq_true ⟨hop, hown⟩⟩
  rw [Option.some.inj hfields]
  exact List.mem_map_of_mem (List.mem_filter.mpr
    ⟨List.mem_map_of_mem hpacket, decide_eq_true hroute⟩)

end Settled

/-! ## The guarantee -/

/-- When the MAC delivers nothing more, every fair schedule ends with ARP replies and
nothing else for the requests received for `OWN_IP`: no more replies than requests, one
at least if there is a request, and all made of the senders of such requests. -/
theorem server_resolves {scfifo : Scfifo} {words : scfifo.State → List (BitVec 80)}
    (hideal : scfifo.Ideal words) (addresses : Addresses) (pps : List (BitVec 8))
    (before : List Action) (stream : List (List L8Beat))
    (hstream : ∀ packet ∈ stream,
      IsPacket L8Beat.endofpacket packet ∧ Delivered packet ∧ packet.length ≤ 2045)
    (hpasses : ∀ packet ∈ icmpOf stream, ¬ IcmpProc.Wedges packet) (rounds : Nat → List Action)
    (hrounds : FairRounds Undisturbed Meets rounds) :
    let state := run addresses (start scfifo pps) before
    state.toUlong2.accepted = stream.flatten →
    ∃ settled, ∀ count, settled ≤ count →
      let later := afterRounds (step addresses) state rounds count
      ∃ frames merged, Interleaves frames ((icmpOf stream).map IcmpProc.echoed) merged ∧
        later.transmitter.pktBuf.transferred = merged.flatten.map onWire ∧
        (repliesOf addresses frames).length ≤ (requestsOf addresses stream).length ∧
        (requestsOf addresses stream ≠ [] → repliesOf addresses frames ≠ []) ∧
        ∀ reply ∈ repliesOf addresses frames, ∃ sources : Nat → Received,
          (∀ offset < 6, sources offset ∈ requestsOf addresses stream) ∧
            reply = replyFrame addresses sources := by
  intro state haccepted
  have hpackets := fun packet hmem => (hstream packet hmem).1
  have hdelivered := fun packet hmem => (hstream packet hmem).2.1
  have hboth := fun packet hmem => And.intro (hpackets packet hmem) (hdelivered packet hmem)
  have hshort := fun packet hmem => And.intro (hpackets packet hmem) (hstream packet hmem).2.2
  have hfirst : Arrived words addresses pps stream
      (afterRounds (step addresses) state rounds 0) :=
    ⟨run_accounted hideal pps before, haccepted⟩
  obtain ⟨settled, hsettled⟩ := settles hideal hrounds hshort hpasses hfirst
  refine ⟨settled, ?_⟩
  intro count hcount
  have hlater := hsettled count hcount
  obtain ⟨frames, merged, harp, hframes, hinterleaves, houtput⟩ :=
    hlater.output_eq hpackets hpasses
  have hlength := (hlater.length_replies hframes harp).2
  obtain ⟨hmost, hleast⟩ := hlater.requests hboth
  refine ⟨frames, merged, hinterleaves, by rw [hlater.transferred, houtput], ?_, ?_, ?_⟩
  · rwa [hlength]
  · intro hsome
    rw [← List.length_pos_iff, hlength, List.length_pos_iff]
    exact hleast hsome
  · intro reply hreply
    obtain ⟨hframe, hother⟩ := List.mem_filter.mp hreply
    have harpFrame := arpFrames hlater.accounted hframes (harp ▸ List.prefix_rfl) reply hframe
    obtain ⟨sources, hsources, rfl⟩ := harpFrame.resolve_left (of_decide_eq_true hother)
    refine ⟨sources, fun offset hoffset => ?_, rfl⟩
    exact mem_requestsOf hdelivered (hlater.accounted.requested hboth
      (hlater.accepted ▸ List.prefix_rfl) _ (hsources offset hoffset))

/-- A ping and an ARP request, which is answered. -/
theorem server_resolves_test :
    (∀ packet ∈ [testPing, testArpRequest],
        IsPacket L8Beat.endofpacket packet ∧ Delivered packet ∧ packet.length ≤ 2045) ∧
      (requestsOf .default [testPing, testArpRequest]).length = 1 ∧
      ∃ settled, ∀ count, settled ≤ count →
        let later := afterRounds (step .default)
          (run .default (start Scfifo.list []) (testActions (testPing ++ testArpRequest) 0))
          (fun _ => served ⟨0#64, false, false, 0#3⟩ false) count
        ∃ frames merged,
          Interleaves frames ((icmpOf [testPing, testArpRequest]).map IcmpProc.echoed) merged ∧
            later.transmitter.pktBuf.transferred = merged.flatten.map onWire ∧
            (repliesOf .default frames).length ≤
              (requestsOf .default [testPing, testArpRequest]).length ∧
            (requestsOf .default [testPing, testArpRequest] ≠ [] →
              repliesOf .default frames ≠ []) ∧
            ∀ reply ∈ repliesOf .default frames, ∃ sources : Nat → Received,
              (∀ offset < 6,
                sources offset ∈ requestsOf .default [testPing, testArpRequest]) ∧
                reply = replyFrame .default sources := by
  have hstream : ∀ packet ∈ [testPing, testArpRequest],
      IsPacket L8Beat.endofpacket packet ∧ Delivered packet ∧ packet.length ≤ 2045 := by decide
  have hpasses : ∀ packet ∈ icmpOf [testPing, testArpRequest], ¬ IcmpProc.Wedges packet := by
    decide +kernel
  exact ⟨hstream, by decide +kernel, server_resolves Scfifo.list_ideal .default []
    (testActions (testPing ++ testArpRequest) 0) [testPing, testArpRequest] hstream hpasses _
    fairRounds_served (by decide +kernel)⟩

end IcmpServer.Server
