import IcmpServer.Server.Causality
import IcmpServer.Server.Liveness
import IcmpServer.Server.Pongs
import Mathlib.Logic.Relation

/-! # The service

What the server is to those who send to it: it hears beats and says packets. It may ask
for the gateway, answer requests that it has heard, and say the next echo of the ICMP
packets heard to their end. Whatever it does of this, each is echoed once and in order,
and there are never more answers than requests.
-/

namespace IcmpServer.Server

open Elastic Rtl Transmit Receive ArpProc

/-- The packet is an ARP packet by the type in its second beat. -/
def onArp (packet : List L8Beat) : Bool :=
  packet[1]?.any fun beat => decide (beat.data.extractLsb' 16 16 = 0x0806#16)

/-- An ARP packet that is not the question for the gateway. -/
def isAnswer (addresses : Addresses) (packet : List L8Beat) : Bool :=
  onArp packet && decide (packet ≠ (requestFrame addresses).map onWire)

/-- What has been heard and said. -/
structure Service where
  heard : List L8Beat
  said : List (List L8Beat)
deriving DecidableEq, Repr

namespace Service

/-- The packets said that are no ARP packets. -/
def echoes (service : Service) : Nat :=
  service.said.countP fun packet => !onArp packet

def answers (addresses : Addresses) (service : Service) : Nat :=
  service.said.countP (isAnswer addresses)

/-- Of the packets heard to their end those that are to be echoed, as they will be. -/
def pending (service : Service) : List (List Beat) :=
  answered (icmpOf (completed L8Beat.endofpacket service.heard))

/-- The beats of the ARP packets heard, of the last packet as far as it has come. -/
def arpBeats (service : Service) : List Beat :=
  RxSplit.etypeRouter.routed .arp (packets Beat.last (service.heard.map fromWire))

/-- The request for `OWN_IP` is shown by six of these beats in a row, `sop` on the first. -/
def Knows (addresses : Addresses) (service : Service) (request : Received) : Prop :=
  request ∈ shown service.arpBeats ∧ request.ForOwnIp addresses

def say (service : Service) (packet : List Beat) : Service :=
  { service with said := service.said ++ [packet.map onWire] }

/-- What the service may do next. -/
inductive Step (addresses : Addresses) (service : Service) : Service → Prop
  | hear (beat : L8Beat) :
      Step addresses service { service with heard := service.heard ++ [beat] }
  | ask : Step addresses service (service.say (requestFrame addresses))
  | answer (sources : Nat → Received) :
      (∀ offset < 6, service.Knows addresses (sources offset)) →
      service.answers addresses < forOwnIp addresses service.arpBeats →
      Step addresses service (service.say (replyFrame addresses sources))
  | echo (reply : List Beat) : service.pending[service.echoes]? = some reply →
      Step addresses service (service.say reply)

end Service

/-! ## ARP packets and echoes -/

/-- Type 0x0806 in beat 1, where the rest is `OWN_MAC`. -/
theorem etype_arpData (addresses : Addresses) :
    (arpData addresses 1).data.extractLsb' 16 16 = 0x0806#16 := by
  apply BitVec.eq_of_getLsbD_eq
  intro bit hbit
  have hbase : BitVec.getLsbD 0x0000000008060001#64 (16 + bit) = BitVec.getLsbD 0x0806#16 bit := by
    interval_cases bit <;> rfl
  have hbelow : ∀ width : Nat, 32 ≤ width → 16 + bit < width := fun width hwidth => by omega
  simpa [arpData, hbit, hbelow] using hbase

theorem onArp_frame {addresses : Addresses} {requests : List Received} {frame : List Beat}
    (hframe : IsArpFrame addresses requests frame) : onArp (frame.map onWire) = true := by
  have hsecond : frame[1]? = some (arpData addresses 1) := by
    rcases hframe with rfl | ⟨sources, -, rfl⟩ <;> rfl
  have hmore : onWire (arpData addresses 1) = toL8 (arpData addresses 1) := onWire_of_more rfl
  rw [onArp, List.getElem?_map, hsecond, Option.map_some, Option.any_some, hmore]
  exact decide_eq_true (etype_arpData addresses)

theorem replyFrame_isArpFrame (addresses : Addresses) (sources : Nat → Received) :
    IsArpFrame addresses ((List.range 6).map sources) (replyFrame addresses sources) :=
  Or.inr ⟨sources, fun _ hoffset => List.mem_map_of_mem (List.mem_range.mpr hoffset), rfl⟩

/-- The swap leaves the type where it is. -/
theorem etype_macField (stage1 stage0 : BitVec 64) :
    (IcmpProc.macField.back stage1 stage0).extractLsb' 16 16 = stage0.extractLsb' 16 16 := by
  apply BitVec.eq_of_getLsbD_eq
  intro bit hbit
  have hlow : BitVec.getLsbD 0xFFFFFFFF00000000#64 (16 + bit) = false := by
    interval_cases bit <;> rfl
  have hmask : BitVec.getLsbD 0x00000000FFFFFFFF#64 (16 + bit) = true := by
    interval_cases bit <;> rfl
  have hwidth : 16 + bit < 64 := by omega
  simp [IcmpProc.macField, hbit, hlow, hmask]

/-- Behind the first two components nothing touches beat 1. -/
theorem second_echoPacket (b0 b1 : Beat) (rest : List Beat) :
    (IcmpProc.echoPacket (b0 :: b1 :: rest))[1]? =
      some { b1 with data := IcmpProc.macField.back b0.data b1.data } := by
  rcases rest with _ | ⟨b2, _ | ⟨b3, _ | ⟨b4, rest⟩⟩⟩ <;> rfl

theorem second_echoed (b0 b1 b2 : Beat) (rest : List Beat)
    (hpasses : ¬ IcmpProc.Wedges (b0 :: b1 :: b2 :: rest)) :
    (IcmpProc.echoed (b0 :: b1 :: b2 :: rest))[1]? =
      some { b1 with data := IcmpProc.macField.back b0.data b1.data } := by
  have hone : (b0 :: b1 :: b2 :: rest).length ≠ 1 := by simp
  have hfour : (b0 :: b1 :: b2 :: rest).length ≠ 4 :=
    fun hlength => hpasses (Or.inr (by rw [hlength]))
  rw [IcmpProc.echoed, if_neg hone, if_neg hfour]
  split_ifs with hwhole
  · exact second_echoPacket b0 b1 (b2 :: rest)
  · have hfirst : (IcmpProc.echoPacket ((b0 :: b1 :: b2 :: rest).take 256))[1]? = _ :=
      second_echoPacket b0 b1 ((b2 :: rest).take 254)
    rw [List.getElem?_append_left (List.getElem?_eq_some_iff.mp hfirst).1]
    exact hfirst

/-- A packet of the ICMP chain has its protocol in beat 2. -/
theorem exists_three_of_icmpOf {stream : List (List L8Beat)} {packet : List Beat}
    (hpacket : packet ∈ icmpOf stream) :
    ∃ b0 b1 b2 rest, packet = b0 :: b1 :: b2 :: rest ∧
      b1.data.extractLsb' 16 16 = 0x0800#16 := by
  obtain ⟨hetype, hproto⟩ := List.mem_filter.mp hpacket
  have hroute := of_decide_eq_true (List.mem_filter.mp hetype).2
  have hicmp := of_decide_eq_true hproto
  match packet with
  | [] => simp [RxSplit.ipv4protoRoute] at hicmp
  | [b0] => simp [RxSplit.ipv4protoRoute] at hicmp
  | [b0, b1] => simp [RxSplit.ipv4protoRoute] at hicmp
  | b0 :: b1 :: b2 :: rest =>
      refine ⟨b0, b1, b2, rest, rfl, ?_⟩
      by_contra hother
      simp only [RxSplit.etypeRoute, if_neg hother] at hroute
      split_ifs at hroute

theorem onArp_answered {stream : List (List L8Beat)}
    (hstream : ∀ packet ∈ stream, IsPacket L8Beat.endofpacket packet) {reply : List Beat}
    (hreply : reply ∈ answered (icmpOf stream)) : onArp (reply.map onWire) = false := by
  obtain ⟨packet, hmem, rfl⟩ := List.mem_map.mp hreply
  have hpasses : ¬ IcmpProc.Wedges packet := by
    simpa using List.mem_takeWhile_imp hmem
  have hicmp := List.takeWhile_subset _ hmem
  obtain ⟨b0, b1, b2, rest, rfl, hetype⟩ := exists_three_of_icmpOf hicmp
  have hlength : 2 < (b0 :: b1 :: b2 :: rest).length := by simp
  have hmore := ((icmpOf_isPacket hstream _ hicmp).cut hlength).1 b1 (by simp)
  have hsecond : Beat.last { b1 with data := IcmpProc.macField.back b0.data b1.data } = false :=
    hmore
  rw [onArp, List.getElem?_map, second_echoed b0 b1 b2 rest hpasses, Option.map_some,
    Option.any_some, data_onWire (endofpacket_onWire hsecond), etype_macField, hetype]
  rfl

/-! ## What the service knows -/

/-- A packet of which two beats have come is known to be an ARP packet. -/
theorem etypeRoute_of_isPrefix {sent packet : List Beat} (hinitial : sent <+: packet)
    (hroute : RxSplit.etypeRoute sent = .arp) : RxSplit.etypeRoute packet = .arp := by
  obtain ⟨rest, rfl⟩ := hinitial
  match sent with
  | [] | [_] => simp [RxSplit.etypeRoute] at hroute
  | _ :: _ :: _ => exact hroute

/-- Of an incomplete packet nothing is taken for an ARP packet before its type has come. -/
theorem routed_open {sent packet : List Beat} (hsent : sent <+: packet)
    (hmore : ∀ beat ∈ sent, beat.last = false) (rest : List (List Beat)) :
    RxSplit.etypeRouter.routed .arp (packets Beat.last sent) <+:
      RxSplit.etypeRouter.routed .arp (packet :: rest) := by
  rw [packets_unmarked hmore, RxSplit.Router.routed_cons]
  by_cases hnone : sent = []
  · rw [if_pos hnone]
    exact List.nil_prefix
  rw [if_neg hnone, RxSplit.Router.routed_cons]
  by_cases hroute : RxSplit.etypeRouter.route sent = .arp
  · have hwhole : RxSplit.etypeRouter.route packet = .arp := etypeRoute_of_isPrefix hsent hroute
    have hnothing : RxSplit.etypeRouter.routed .arp [] = [] := rfl
    rw [if_pos hroute, if_pos hwhole, hnothing, List.append_nil]
    exact hsent.trans (List.prefix_append _ _)
  · rw [if_neg hroute]
    exact List.nil_prefix

/-- The ARP packets at the beginning of a stream are the first ones of the stream. -/
theorem routed_isPrefix {pieces : List (List Beat)} (hpieces : CutShort Beat.last pieces)
    {sent : List Beat} (hinitial : sent <+: pieces.flatten) :
    RxSplit.etypeRouter.routed .arp (packets Beat.last sent) <+:
      RxSplit.etypeRouter.routed .arp pieces := by
  induction hpieces generalizing sent with
  | nil =>
      rw [List.flatten_nil, List.prefix_nil] at hinitial
      rw [hinitial]
      exact List.prefix_rfl
  | @short piece hmore =>
      rw [List.flatten_cons, List.flatten_nil, List.append_nil] at hinitial
      exact routed_open hinitial (fun beat hbeat => hmore beat (hinitial.subset hbeat)) []
  | @cons packet rest hpacket _ ih =>
      rw [List.flatten_cons] at hinitial
      rcases Nat.lt_or_ge sent.length packet.length with hshort | hlong
      · have hsent : sent <+: packet :=
          List.prefix_of_prefix_length_le hinitial (List.prefix_append _ _) (Nat.le_of_lt hshort)
        have hmore := (hpacket.cut hshort).1
        rw [← List.prefix_iff_eq_take.mp hsent] at hmore
        exact routed_open hsent hmore rest
      · obtain ⟨later, rfl⟩ :=
          List.prefix_of_prefix_length_le (List.prefix_append _ _) hinitial hlong
        rw [hpacket.packets_append, RxSplit.Router.routed_cons, RxSplit.Router.routed_cons,
          List.prefix_append_right_inj]
        exact ih ((List.prefix_append_right_inj packet).mp hinitial)

/-- What is known stays known. -/
theorem arpBeats_isPrefix {service later : Service} (hheard : service.heard <+: later.heard) :
    service.arpBeats <+: later.arpBeats := by
  apply routed_isPrefix (cutShort_packets Beat.last _)
  rw [flatten_packets]
  exact hheard.map fromWire

/-- The beats of the ARP packets of a stream, when nothing else is heard. -/
theorem arpBeats_of_stream {stream : List (List L8Beat)}
    (hstream : ∀ packet ∈ stream, IsPacket L8Beat.endofpacket packet)
    (said : List (List L8Beat)) :
    Service.arpBeats ⟨stream.flatten, said⟩ = (ofEtype .arp stream).flatten := by
  rw [Service.arpBeats, ← flatten_received, packets_flatten _ (received_isPacket hstream)]
  rfl

/-- When packets of at least six beats are heard, headed by `sop`, what the service knows
are requests received as packets. -/
theorem Service.Knows.requested {addresses : Addresses} {service : Service} {request : Received}
    (hknown : service.Knows addresses request) {stream : List (List L8Beat)}
    (hstream : ∀ packet ∈ stream, IsPacket L8Beat.endofpacket packet ∧ Delivered packet)
    (hheard : service.heard <+: stream.flatten) : Requested addresses stream request := by
  obtain ⟨hshown, hop, hown⟩ := hknown
  have hsix := sixBeats_ofEtype (fun packet hmem => (hstream packet hmem).2) .arp
  obtain ⟨later, hlater⟩ : service.arpBeats <+: Service.arpBeats ⟨stream.flatten, []⟩ :=
    arpBeats_isPrefix hheard
  rw [arpBeats_of_stream fun packet hmem => (hstream packet hmem).1] at hlater
  have hmem := (shown_append_sublist service.arpBeats later).subset hshown
  rw [hlater, shown_packets hsix] at hmem
  obtain ⟨packet, hpacket, rfl⟩ := List.mem_map.mp hmem
  have hreceived := packetReceived_eq (hsix packet hpacket).1 []
  rw [List.append_nil] at hreceived
  obtain ⟨hsource, hroute⟩ := List.mem_filter.mp hpacket
  obtain ⟨wire, hwire, rfl⟩ := List.mem_map.mp hsource
  exact ⟨wire, hwire, of_decide_eq_true hroute, hreceived, hop, hown⟩

/-! ## Safety -/

/-- More packets leave the answers to the first ones in place. -/
theorem answered_isPrefix {packets more : List (List Beat)} (hmore : packets <+: more) :
    answered packets <+: answered more := by
  obtain ⟨rest, rfl⟩ := hmore
  rw [answered, answered, List.takeWhile_append]
  split_ifs with hall
  · rw [(List.takeWhile_prefix _).eq_of_length hall, List.map_append]
    exact List.prefix_append _ _
  · exact List.prefix_rfl

namespace Service

variable {addresses : Addresses}

/-- What has been said and is no ARP packet are the first echoes of the packets heard to
their end, and there are no more answers than requests heard. -/
structure Faithful (addresses : Addresses) (service : Service) : Prop where
  echoes : (service.said.filter fun packet => !onArp packet) <+:
    service.pending.map fun reply => reply.map onWire
  answers : service.answers addresses ≤ forOwnIp addresses service.arpBeats

/-- Hearing more leaves the packets to be echoed in place. -/
theorem pending_hear (service : Service) (beat : L8Beat) :
    service.pending <+: pending { service with heard := service.heard ++ [beat] } := by
  apply answered_isPrefix
  rcases completed_append_singleton L8Beat.endofpacket service.heard beat with
    ⟨-, hsame⟩ | ⟨packet, hmore⟩
  · rw [hsame]
  · rw [hmore, icmpOf_append]
    exact List.prefix_append _ _

/-- A frame is no echo. -/
theorem echoes_say_frame (service : Service) {requests : List Received} {frame : List Beat}
    (hframe : IsArpFrame addresses requests frame) :
    (service.say frame).said.filter (fun packet => !onArp packet) =
      service.said.filter fun packet => !onArp packet := by
  have hskip : [frame.map onWire].filter (fun packet => !onArp packet) = [] := by
    simp [onArp_frame hframe]
  rw [say, List.filter_append, hskip, List.append_nil]

/-- The next echo is the one said. -/
theorem echoes_say_echo {service : Service} {reply : List Beat}
    (hechoes : (service.said.filter fun packet => !onArp packet) <+:
      service.pending.map fun reply => reply.map onWire)
    (hreply : service.pending[service.echoes]? = some reply) :
    ((service.say reply).said.filter fun packet => !onArp packet) <+:
      service.pending.map fun reply => reply.map onWire := by
  have hother : onArp (reply.map onWire) = false :=
    onArp_answered completed_isPacket (List.mem_of_getElem? hreply)
  have hcount : (service.said.filter fun packet => !onArp packet).length = service.echoes :=
    List.countP_eq_length_filter.symm
  have hfirst := List.prefix_iff_eq_take.mp hechoes
  rw [hcount] at hfirst
  have hone : (service.pending.map fun reply => reply.map onWire)[service.echoes]? =
      some (reply.map onWire) := by
    rw [List.getElem?_map, hreply]
    rfl
  have hsaid : ((service.say reply).said.filter fun packet => !onArp packet) =
      (service.pending.map fun reply => reply.map onWire).take (service.echoes + 1) := by
    rw [List.take_add_one, hone, ← hfirst, say, List.filter_append]
    simp [hother]
  rw [hsaid]
  exact List.take_prefix _ _

theorem answers_say (addresses : Addresses) (service : Service) (packet : List Beat) :
    (service.say packet).answers addresses =
      service.answers addresses + (isAnswer addresses (packet.map onWire)).toNat := by
  rw [answers, say, List.countP_append, List.countP_singleton, answers]
  cases isAnswer addresses (packet.map onWire) <;> rfl

theorem answers_say_ask (addresses : Addresses) (service : Service) :
    (service.say (requestFrame addresses)).answers addresses = service.answers addresses := by
  rw [answers_say, isAnswer, decide_eq_false (not_not_intro rfl), Bool.and_false]
  rfl

theorem answers_say_answer (addresses : Addresses) (service : Service)
    (sources : Nat → Received) :
    (service.say (replyFrame addresses sources)).answers addresses =
      service.answers addresses + 1 := by
  rw [answers_say, isAnswer, decide_eq_true (onWire_replyFrame_ne addresses sources),
    onArp_frame (replyFrame_isArpFrame addresses sources)]
  rfl

theorem answers_say_echo (addresses : Addresses) {service : Service} {reply : List Beat}
    (hreply : reply ∈ service.pending) :
    (service.say reply).answers addresses = service.answers addresses := by
  rw [answers_say, isAnswer, onArp_answered completed_isPacket hreply]
  rfl

theorem Step.faithful {service next : Service} (hstep : Step addresses service next)
    (hfaithful : service.Faithful addresses) : next.Faithful addresses := by
  cases hstep with
  | hear beat =>
      have hmore : service.heard <+: service.heard ++ [beat] := List.prefix_append _ _
      exact ⟨hfaithful.echoes.trans ((service.pending_hear beat).map _),
        hfaithful.answers.trans (forOwnIp_mono addresses (arpBeats_isPrefix hmore))⟩
  | ask =>
      refine ⟨?_, (answers_say_ask addresses service).trans_le hfaithful.answers⟩
      rw [@echoes_say_frame addresses service [] _ (Or.inl rfl)]
      exact hfaithful.echoes
  | answer sources _ hunanswered =>
      refine ⟨?_, (answers_say_answer addresses service sources).trans_le hunanswered⟩
      rw [echoes_say_frame service (replyFrame_isArpFrame addresses sources)]
      exact hfaithful.echoes
  | echo reply hreply =>
      have hsame := answers_say_echo addresses (List.mem_of_getElem? hreply)
      exact ⟨echoes_say_echo hfaithful.echoes hreply, hsame.trans_le hfaithful.answers⟩

/-- Every run of the service echoes the packets heard each once and in order, and answers
no more requests than it has heard. -/
theorem run_faithful {service : Service}
    (hrun : Relation.ReflTransGen (Step addresses) ⟨[], []⟩ service) :
    service.Faithful addresses := by
  induction hrun with
  | refl => exact ⟨List.nil_prefix, Nat.zero_le _⟩
  | tail _ hstep ih => exact hstep.faithful ih

end Service

end IcmpServer.Server
