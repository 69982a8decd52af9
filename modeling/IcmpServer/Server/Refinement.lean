import IcmpServer.Server.Service

/-! # The server is such a service

What the server has heard is what the receive MAC has delivered, and what it has
said are the packets that the transmit MAC has got to their end. Whatever the
components do, the service can do as well.
-/

namespace IcmpServer.Server

open Elastic Rtl Transmit Receive ArpProc

def State.service {scfifo : Scfifo} (state : State scfifo) : Service where
  heard := state.toUlong2.accepted
  said := completed L8Beat.endofpacket state.transmitter.pktBuf.transferred

theorem reply_flagged {stream : List (List L8Beat)} {reply : List Beat}
    (hreply : reply ∈ answered (icmpOf stream)) : ∀ beat ∈ reply, FlaggedEop beat := by
  obtain ⟨packet, hmem, rfl⟩ := List.mem_map.mp hreply
  have hpasses : ¬ IcmpProc.Wedges packet := by
    simpa using List.mem_takeWhile_imp hmem
  have hreceived := List.takeWhile_subset _ hmem
  obtain ⟨wire, -, rfl⟩ :=
    List.mem_map.mp (List.mem_filter.mp (List.mem_filter.mp hreceived).1).1
  exact flaggedEop_echoed hpasses

section Steps

variable {scfifo : Scfifo} {words : scfifo.State → List (BitVec 80)}
  {addresses : Addresses} {pps : List (BitVec 8)} {state : State scfifo}

/-- What has been said are the first packets of a merge of ARP frames and echoes. -/
theorem Accounted.said (hstate : Accounted words addresses pps state) :
    ∃ frames replies merged, Interleaves frames replies merged ∧
      state.service.said <+: merged.map (fun packet => packet.map onWire) ∧
      (∀ frame ∈ frames, IsPacket Beat.last frame) ∧ frames.flatten <+: state.arp.output ∧
      replies <+: state.service.pending := by
  obtain ⟨piece, haccepted, hpiece⟩ :=
    exists_incomplete L8Beat.endofpacket state.toUlong2.accepted
  have hwhole := @completed_isPacket _ L8Beat.endofpacket state.toUlong2.accepted
  obtain ⟨frames, replies, merged, hmerged, htransferred, hpackets, hwritten, hreplies⟩ :=
    transmits_completed hwhole hpiece haccepted hstate
  refine ⟨frames, replies, merged, hmerged, ?_, hpackets, hwritten, hreplies⟩
  refine completed_isPrefix ?_ (List.map_flatten ▸ htransferred)
  intro packet hmem
  obtain ⟨source, hsource, rfl⟩ := List.mem_map.mp hmem
  rcases List.mem_append.mp (hmerged.perm.subset hsource) with hframe | hreply
  · have harp := arpFrames hstate hpackets hwritten source hframe
    exact isPacket_onWire (hpackets source hframe) (flaggedEop_arp harp)
  · have hpending := hreplies.subset hreply
    exact isPacket_onWire (answered_isPacket (icmpOf_isPacket hwhole) _ hpending)
      (reply_flagged hpending)

/-- What `arp_proc` is given is heard. -/
theorem Accounted.arpBeats (hstate : Accounted words addresses pps state) :
    state.etype.output .arp <+: state.service.arpBeats := by
  have htransferred := hstate.toUlong2.lossless.transferred.map unpack
  rw [List.map_map] at htransferred
  obtain ⟨rest, hrest⟩ : state.toUlong2.transferred.map unpack <+:
    state.toUlong2.accepted.map fromWire := htransferred
  have hsplit := RxSplit.reached_accounted hstate.etype rest
  rw [hrest] at hsplit
  exact hsplit.output_isPrefix .arp

/-- Every request accepted is known from the beats heard. -/
theorem Accounted.knows (hstate : Accounted words addresses pps state) :
    ∀ request ∈ state.arp.requests, state.service.Knows addresses request := by
  obtain ⟨later, hlater⟩ := hstate.arpBeats
  have hrequests := hstate.arp.holds (fun whole config => ∀ request ∈ config.requests,
    request ∈ shown whole ∧ request.ForOwnIp addresses) ?_ later
  · rw [hlater] at hrequests
    exact hrequests
  · intro whole schedule request hrequest
    have hknown := run_requests_shown addresses schedule (ArpProc.start whole pps) request hrequest
    rw [← shown_idle whole]
    exact hknown.resolve_left List.not_mem_nil

/-- No more requests are accepted than have been heard. -/
theorem Accounted.requests_le (hstate : Accounted words addresses pps state) :
    state.arp.requests.length ≤ forOwnIp addresses state.service.arpBeats := by
  obtain ⟨later, hlater⟩ := hstate.arpBeats
  rw [← hlater]
  apply hstate.arp.holds fun whole config => config.requests.length ≤ forOwnIp addresses whole
  intro whole schedule
  exact (Nat.le_add_right _ _).trans (run_requests addresses whole pps schedule).1

/-- A packet written by `arp_proc` that is an answer on the wire is a reply. -/
theorem countP_isAnswer_le (addresses : Addresses) (frames : List (List Beat)) :
    frames.countP (fun frame => isAnswer addresses (frame.map onWire)) ≤
      (repliesOf addresses frames).length := by
  rw [repliesOf, ← List.countP_eq_length_filter]
  apply List.countP_mono_left
  intro frame _ hanswer
  have hother := of_decide_eq_true (Bool.and_eq_true_iff.mp hanswer).2
  exact decide_eq_true fun hsame => hother (congrArg (List.map onWire) hsame)

/-- No more answers have been sent than requests heard. -/
theorem Accounted.answers_le (hstate : Accounted words addresses pps state) :
    state.service.answers addresses ≤ forOwnIp addresses state.service.arpBeats := by
  obtain ⟨frames, replies, merged, hmerged, hsaid, hpackets, hwritten, hreplies⟩ := hstate.said
  have hnone : replies.countP (fun reply => isAnswer addresses (reply.map onWire)) = 0 := by
    apply List.countP_eq_zero.mpr
    intro reply hreply
    rw [isAnswer, onArp_answered completed_isPacket (hreplies.subset hreply)]
    exact Bool.false_ne_true
  calc state.service.answers addresses
      ≤ (merged.map fun packet => packet.map onWire).countP (isAnswer addresses) :=
        hsaid.sublist.countP_le
    _ = frames.countP fun frame => isAnswer addresses (frame.map onWire) := by
        rw [List.countP_map, hmerged.perm.countP_eq, List.countP_append]
        exact congrArg (_ + ·) hnone
    _ ≤ (repliesOf addresses frames).length := countP_isAnswer_le addresses frames
    _ ≤ state.arp.requests.length :=
        length_repliesOf_le (ArpProc.reached_accounted hstate.arp) hstate.answered hpackets hwritten
    _ ≤ forOwnIp addresses state.service.arpBeats := hstate.requests_le

/-- What is said next the service may say. -/
theorem Accounted.said_next (hstate : Accounted words addresses pps state) {before : Service}
    (hheard : before.heard = state.toUlong2.accepted) {packet : List L8Beat}
    (hsaid : state.service.said = before.said ++ [packet]) :
    Service.Step addresses before state.service := by
  obtain ⟨frames, replies, merged, hmerged, ⟨rest, hrest⟩, hpackets, hwritten, hreplies⟩ :=
    hstate.said
  have hframes := arpFrames hstate hpackets hwritten
  have hanswers := hstate.answers_le
  rw [hsaid, List.append_assoc, eq_comm] at hrest
  obtain ⟨front, behind, rfl, hfront, hbehind⟩ := List.map_eq_append_iff.mp hrest
  obtain ⟨body, tail, rfl, rfl, -⟩ := List.map_eq_cons_iff.mp hbehind
  have hservice : state.service = before.say body := by
    rw [Service.say, ← hsaid, hheard]
    rfl
  have hpending : state.service.pending = before.pending := by
    rw [hservice]
    rfl
  have hbeats : state.service.arpBeats = before.arpBeats := by
    rw [hservice]
    rfl
  rw [hpending] at hreplies
  rw [hbeats, hservice] at hanswers
  rw [hservice]
  by_cases hbody : body ∈ frames
  · rcases hframes body hbody with rfl | ⟨sources, hsources, rfl⟩
    · exact .ask
    · rw [Service.answers_say_answer] at hanswers
      refine .answer sources (fun offset hoffset => ?_) hanswers
      rw [Service.Knows, ← hbeats]
      exact hstate.knows _ (hsources offset hoffset)
  · -- an echo has as many echoes in front of it as have been said
    let isEcho := fun packet : List Beat => !onArp (packet.map onWire)
    have hwhole := @completed_isPacket _ L8Beat.endofpacket before.heard
    have harp : ∀ frame ∈ frames, isEcho frame = false :=
      fun frame hframe => congrArg not (onArp_frame (hframes frame hframe))
    have hechoes : ∀ reply ∈ replies, isEcho reply = true :=
      fun reply hreply => congrArg not (onArp_answered hwhole (hreplies.subset hreply))
    have hmem : body ∈ replies :=
      (List.mem_append.mp (hmerged.perm.subset (by simp))).resolve_left hbody
    have hfilter := hmerged.filter_eq harp hechoes
    rw [List.filter_append, List.filter_cons_of_pos (hechoes body hmem)] at hfilter
    have hcount : before.echoes = (front.filter isEcho).length := by
      rw [Service.echoes, ← hfront, List.countP_map, List.countP_eq_length_filter]
      rfl
    have hnext : replies[before.echoes]? = some body := by
      rw [← hfilter, hcount, List.getElem?_append_right le_rfl, Nat.sub_self]
      rfl
    obtain ⟨hlength, hbody⟩ := List.getElem?_eq_some_iff.mp hnext
    exact .echo body ((List.prefix_iff_getElem?.mp hreplies _ hlength).trans (congrArg some hbody))

variable (hideal : scfifo.Ideal words)
include hideal

theorem step_service (hstate : Accounted words addresses pps state) (action : Action) :
    Relation.ReflGen (Service.Step addresses) state.service
      (step addresses state action).service := by
  cases action with
  | toUlong2 cycle =>
      change Relation.ReflGen _ _ { state.service with
        heard := state.service.heard ++ Converter.accepts state.toUlong2.state cycle }
      rw [Converter.accepts]
      split_ifs
      · exact .single (.hear cycle.inData)
      · rw [List.append_nil]
  | transmitter padding inValid outReady =>
      have hnext := step_transmitter hstate hideal padding inValid outReady
      obtain hsame | ⟨packet, hsaid⟩ :
          (step addresses state (.transmitter padding inValid outReady)).service.said =
              state.service.said ∨
            ∃ packet, (step addresses state (.transmitter padding inValid outReady)).service.said =
              state.service.said ++ [packet] := by
        change completed L8Beat.endofpacket (state.transmitter.pktBuf.transferred ++ _) = _ ∨
          ∃ packet, completed L8Beat.endofpacket (state.transmitter.pktBuf.transferred ++ _) = _
        rw [OutputStage.transfers]
        split_ifs
        · exact (completed_append_singleton _ _ _).imp_left And.right
        · exact Or.inl (congrArg _ (List.append_nil _))
      · have hservice :
            (step addresses state (.transmitter padding inValid outReady)).service =
              state.service := congrArg (Service.mk state.service.heard) hsame
        rw [hservice]
      · exact .single (hnext.said_next rfl hsaid)
  | _ => exact .refl

end Steps

/-- Whatever the components do in a reached state, the service does at most one step of
its own. So it can follow every run of the server, and the server echoes and answers what
it has heard as the service does. -/
theorem server_refines {scfifo : Scfifo} {words : scfifo.State → List (BitVec 80)}
    (hideal : scfifo.Ideal words) (addresses : Addresses) (pps : List (BitVec 8))
    (actions : List Action) :
    let state := run addresses (start scfifo pps) actions
    (∀ action, Relation.ReflGen (Service.Step addresses) state.service
      (step addresses state action).service) ∧
      Relation.ReflTransGen (Service.Step addresses) ⟨[], []⟩ state.service ∧
      state.service.Faithful addresses := by
  have hrun : Relation.ReflTransGen (Service.Step addresses) ⟨[], []⟩
      (run addresses (start scfifo pps) actions).service :=
    foldl_refines State.service (step_accounted hideal)
      (fun state action hstate => step_service hideal hstate action) actions (start scfifo pps)
      (start_accounted hideal)
  exact ⟨step_service hideal (run_accounted hideal pps actions), hrun, Service.run_faithful hrun⟩

/-- A ping and an ARP request. -/
theorem server_refines_test :
    let state := run .default (start Scfifo.list []) (testActions (testPing ++ testArpRequest) 40)
    state.service.said.length = 2 ∧
      (∀ action, Relation.ReflGen (Service.Step .default) state.service
        (step .default state action).service) ∧
      Relation.ReflTransGen (Service.Step .default) ⟨[], []⟩ state.service ∧
      state.service.Faithful .default := by
  refine ⟨by decide +kernel, ?_⟩
  exact server_refines Scfifo.list_ideal .default []
    (testActions (testPing ++ testArpRequest) 40)

end IcmpServer.Server
