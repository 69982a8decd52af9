import IcmpServer.ArpProc.Answers
import IcmpServer.Transmit.ArpFrames

/-! # The bytes of a frame

Whatever arrives, and however long its beats wait, `arp_proc` writes complete
frames one after the other. A frame is a request or a reply as a whole and has
the same header in both.
-/

namespace IcmpServer.Transmit

open Elastic Words ArpProc

variable (addresses : Addresses)

/-! ## The layout -/

/-- `OWN_MAC` as it is sent. -/
def ownMacBytes : List (BitVec 8) :=
  [addresses.ownMac0, addresses.ownMac1, addresses.ownMac2, addresses.ownMac3, addresses.ownMac4,
    addresses.ownMac5]

/-- `OWN_IP` as it is sent. -/
def ownIpBytes : List (BitVec 8) :=
  [addresses.ownIp0, addresses.ownIp1, addresses.ownIp2, addresses.ownIp3]

/-- An ARP frame sent by `OWN_MAC` and `OWN_IP`. -/
def arpBytes (dstMac : BitVec 48) (op : BitVec 8) (targetMac : BitVec 48)
    (targetIp : BitVec 32) : List (BitVec 8) :=
  bytes 6 dstMac ++ ownMacBytes addresses ++ [0x08#8, 0x06#8] ++
    [0x00#8, 0x01#8, 0x08#8, 0x00#8, 0x06#8, 0x04#8] ++ [0x00#8, op] ++
    ownMacBytes addresses ++ ownIpBytes addresses ++ bytes 6 targetMac ++ bytes 4 targetIp

/-- The frame is of six beats, with `sop` on the first alone and `eop` on the last
alone, of which six bytes are unused. -/
def IsFrame (frame : List Beat) : Prop :=
  frame.length = 6 ∧ ∀ offset beat, frame[offset]? = some beat →
    beat.sop = (if offset = 0 then 1#8 else 0#8) ∧
      beat.eop = (if offset = 5 then 1#8 else 0#8) ∧
      beat.empty = if offset = 5 then 6#8 else 0#8

/-! ## Beats in bytes -/

/-- The send sequences with the registers as they are when each beat is placed. -/
def sequenceFrame (macs : Nat → BitVec 48) (op : BitVec 8) (ips : Nat → BitVec 32) : List Beat :=
  (List.range 6).map fun offset => sendSequence addresses (macs offset) (op.setWidth 64 <<< 16)
    (ips offset) (BitVec.ofNat 8 offset) zeroBeat

/-- The MAC address is taken in beats 0 and 4. The target IP address is half
`GTW_IP`, half the address taken in beat 5. -/
theorem placedBytes_sequenceFrame (macs : Nat → BitVec 48) (op : BitVec 8)
    (ips : Nat → BitVec 32) :
    placedBytes (sequenceFrame addresses macs op ips) =
      arpBytes addresses (macs 0) op (macs 4)
        (addresses.gtwIp.extractLsb' 16 16 ++ (ips 5).extractLsb' 0 16) := by
  rw [sequenceFrame, placedBytes_eq, arpBytes, bytes_append]
  simp [sendSequence, orData, arpData, bytes, List.range_succ, byte_or, byte_and,
    byte_shiftLeft, byte_shiftRight, byte_setWidth, byte_ofNat, extractLsb'_extractLsb',
    ownMacBytes, ownIpBytes]

theorem sequenceFrame_isFrame (macs : Nat → BitVec 48) (op : BitVec 8) (ips : Nat → BitVec 32) :
    IsFrame (sequenceFrame addresses macs op ips) := by
  refine ⟨by simp [sequenceFrame], ?_⟩
  intro offset beat hbeat
  obtain ⟨hoffset, rfl⟩ := List.getElem?_eq_some_iff.mp hbeat
  have hlength : offset < 6 := by simpa [sequenceFrame] using hoffset
  simp only [sequenceFrame, List.getElem_map, List.getElem_range]
  interval_cases offset <;> exact ⟨rfl, rfl, rfl⟩

theorem requestFrame_eq :
    requestFrame addresses =
      sequenceFrame addresses (fun _ => bcastMac) 0x01#8 fun _ => addresses.gtwIp := rfl

theorem replyFrame_eq (sources : Nat → Received) :
    replyFrame addresses sources =
      sequenceFrame addresses (fun offset => (sources offset).srcMac) 0x02#8
        fun offset => (sources offset).srcIp := rfl

/-- A request is broadcast and asks for `GTW_IP`. -/
theorem placedBytes_requestFrame :
    placedBytes (requestFrame addresses) =
      arpBytes addresses bcastMac 0x01#8 bcastMac addresses.gtwIp := by
  rw [requestFrame_eq, placedBytes_sequenceFrame]
  exact congrArg _ BitVec.extractLsb'_append_extractLsb'

theorem placedBytes_replyFrame (sources : Nat → Received) :
    placedBytes (replyFrame addresses sources) =
      arpBytes addresses (sources 0).srcMac 0x02#8 (sources 4).srcMac
        (addresses.gtwIp.extractLsb' 16 16 ++ (sources 5).srcIp.extractLsb' 0 16) := by
  rw [replyFrame_eq, placedBytes_sequenceFrame]

/-! ## Every run -/

/-- What is written is at every moment the beginning of complete frames, each a
request or a reply as a whole. -/
theorem arpProc_frames (input : List Beat) (pps : List (BitVec 8)) (schedule : List Call) :
    let config := run addresses (start input pps) schedule
    ∃ frames : List (List Beat), config.output <+: frames.flatten ∧ ∀ frame ∈ frames,
      IsFrame frame ∧
        (frame = requestFrame addresses ∧ placedBytes frame =
            arpBytes addresses bcastMac 0x01#8 bcastMac addresses.gtwIp ∨
          ∃ sources : Nat → Received, (∀ offset < 6, sources offset ∈ config.requests) ∧
            frame = replyFrame addresses sources ∧ ∃ targetIp, placedBytes frame =
              arpBytes addresses (sources 0).srcMac 0x02#8 (sources 4).srcMac targetIp) := by
  intro config
  have hsending := (run_accounted addresses schedule _
    (start_accounted addresses input pps)).sending
  have hlogged := run_logged addresses schedule (start input pps) (by simp [Logged, start])
  obtain ⟨frames, hinitial, hframes⟩ := hsending.framed.exists_complete (by decide) (by
    intro frame hframe offset
    cases frame with
    | request => exact ⟨_, rfl⟩
    | reply request => exact ⟨_, request, hlogged request hframe, rfl⟩)
  refine ⟨frames, (List.prefix_append _ _).trans hinitial, ?_⟩
  intro frame hframe
  obtain ⟨hlength, source, -, hbeats⟩ := hframes frame hframe
  rcases frame_of_emits addresses hlength hbeats with rfl | ⟨sources, hsources, rfl⟩
  · refine ⟨?_, Or.inl ⟨rfl, placedBytes_requestFrame addresses⟩⟩
    rw [requestFrame_eq]
    exact sequenceFrame_isFrame addresses _ _ _
  · refine ⟨?_, Or.inr ⟨sources, hsources, rfl, _, placedBytes_replyFrame addresses sources⟩⟩
    rw [replyFrame_eq]
    exact sequenceFrame_isFrame addresses _ _ _

/-! ## The reply to a request -/

/-- The reply is addressed to the sender of the request when the upper halves agree. -/
theorem placedBytes_reply_iff (request : Received) :
    placedBytes ((List.range 6).map (replyBeat addresses request)) =
        arpBytes addresses request.srcMac 0x02#8 request.srcMac request.srcIp ↔
      request.srcIp.extractLsb' 16 16 = addresses.gtwIp.extractLsb' 16 16 := by
  have hbytes := placedBytes_replyFrame addresses fun _ => request
  have hsplit : request.srcIp.extractLsb' 16 16 ++ request.srcIp.extractLsb' 0 16 =
      request.srcIp := BitVec.extractLsb'_append_extractLsb'
  rw [replyFrame] at hbytes
  rw [hbytes, arpBytes, arpBytes, List.append_cancel_left_eq]
  nth_rewrite 2 [← hsplit]
  rw [bytes_append, bytes_append, List.append_cancel_right_eq, bytes_inj, eq_comm]

/-- When no other request for `OWN_IP` is evaluated before the reply to an accepted
request is complete, the reply has the requester's addresses throughout exactly
when the upper half of the requester's IP address is that of `GTW_IP`. -/
theorem arpReply_addressed_iff (input : List Beat) (pps : List (BitVec 8))
    (before later : List Call) (call : Call) (request : Received) (place : Nat)
    (hplace : (run addresses (start input pps) before).frames.length = place)
    (haccepted : accepted addresses (run addresses (start input pps) before).state = some request)
    (hquiet : Along (step addresses) (Quiet addresses place)
      (run addresses (start input pps) (before ++ [call])) later)
    (hcomplete : 6 * (place + 1) ≤
      (run addresses (start input pps) (before ++ call :: later)).output.length) :
    let config := run addresses (start input pps) (before ++ call :: later)
    config.frames[place]? = some (.reply request) ∧
      (placedBytes ((config.output.drop (6 * place)).take 6) =
          arpBytes addresses request.srcMac 0x02#8 request.srcMac request.srcIp ↔
        request.srcIp.extractLsb' 16 16 = addresses.gtwIp.extractLsb' 16 16) := by
  intro config
  have hanswers := run_answers input pps before later call haccepted hplace hquiet
  obtain ⟨hframe, hwritten⟩ := hanswers.written hcomplete
  rw [hwritten]
  exact ⟨hframe, placedBytes_reply_iff addresses request⟩

/-- Calls enough to receive a request and to write the reply. -/
def replyCalls : List Call :=
  List.replicate 6 served ++ served :: List.replicate 8 served

/-- Request from 192.168.2.5, in the network of the gateway. -/
def nearRequest : Received := ⟨0x01#8, 0x060000000001#48, 0xc0a80205#32, 0xc0a80264#32⟩

/-- Request from 10.0.0.5. -/
def farRequest : Received := ⟨0x01#8, 0x060000000001#48, 0x0a000005#32, 0xc0a80264#32⟩

/-- The request is received, accepted and answered without another one. -/
def AnsweredAlone (request : Received) : Prop :=
  let received := start (requestPkt request.srcMac request.srcIp) []
  (run .default received (List.replicate 6 served)).frames.length = 0 ∧
    accepted .default (run .default received (List.replicate 6 served)).state = some request ∧
    Along (step .default) (Quiet .default 0)
      (run .default received (List.replicate 6 served ++ [served])) (List.replicate 8 served) ∧
    6 * (0 + 1) ≤ (run .default received replyCalls).output.length

theorem arpReply_addressed_nearRequest :
    AnsweredAlone nearRequest ∧
      placedBytes (((run .default (start (requestPkt nearRequest.srcMac nearRequest.srcIp) [])
          replyCalls).output.drop (6 * 0)).take 6) =
        arpBytes .default nearRequest.srcMac 0x02#8 nearRequest.srcMac nearRequest.srcIp := by
  have halone : AnsweredAlone nearRequest := by
    unfold AnsweredAlone
    decide
  obtain ⟨hplace, haccepted, hquiet, hcomplete⟩ := halone
  refine ⟨⟨hplace, haccepted, hquiet, hcomplete⟩, ?_⟩
  exact (arpReply_addressed_iff .default _ [] (List.replicate 6 served) (List.replicate 8 served)
    served nearRequest 0 hplace haccepted hquiet hcomplete).2.mpr rfl

/-- The reply to 10.0.0.5 is addressed to 192.168.0.5. -/
theorem arpReply_misaddressed_farRequest :
    AnsweredAlone farRequest ∧
      placedBytes (((run .default (start (requestPkt farRequest.srcMac farRequest.srcIp) [])
          replyCalls).output.drop (6 * 0)).take 6) =
        arpBytes .default farRequest.srcMac 0x02#8 farRequest.srcMac 0xc0a80005#32 ∧
      placedBytes (((run .default (start (requestPkt farRequest.srcMac farRequest.srcIp) [])
          replyCalls).output.drop (6 * 0)).take 6) ≠
        arpBytes .default farRequest.srcMac 0x02#8 farRequest.srcMac farRequest.srcIp := by
  unfold AnsweredAlone
  decide

end IcmpServer.Transmit
