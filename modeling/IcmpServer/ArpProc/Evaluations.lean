import IcmpServer.ArpProc.Coherence
import IcmpServer.Hls.PacketBytes

/-! # What is evaluated

The dispatch flow evaluates a packet in the call in which a new beat comes with
the packet's first beat in `in_stage5`. A run is kept with a log of its
evaluations; what is logged and what the window will still show add up to what
the whole input shows.
-/

namespace IcmpServer.ArpProc

open Elastic

variable (addresses : Addresses)

/-! ## The log -/

/-- An evaluated packet with `out_send_arp_rpy_stdby` as the dispatch flow finds it. -/
structure Evaluation where
  recv : Received
  pending : Bool
deriving DecidableEq, Repr

def evaluation (state : ArpState) : Option Evaluation :=
  (evaluated state).map fun recv => ⟨recv, state.outSendArpRpyStdby⟩

/-- The evaluations of a run, oldest first. -/
def evaluations (config : Config) : List Call → List Evaluation
  | [] => []
  | call :: rest =>
      (evaluation config.state).toList ++ evaluations (step addresses config call) rest

/-! ## What a stream shows -/

/-- The fields of a packet by its bytes: 21, 22 to 27, 28 to 31 and 38 to 41. -/
def packetFields (packet : List Beat) : Received where
  arpOp := IcmpProc.packetByte packet 21
  srcMac := IcmpProc.packetByte packet 22 ++ IcmpProc.packetByte packet 23 ++
    IcmpProc.packetByte packet 24 ++ IcmpProc.packetByte packet 25 ++
    IcmpProc.packetByte packet 26 ++ IcmpProc.packetByte packet 27
  srcIp := IcmpProc.packetByte packet 28 ++ IcmpProc.packetByte packet 29 ++
    IcmpProc.packetByte packet 30 ++ IcmpProc.packetByte packet 31
  dstIp := IcmpProc.packetByte packet 38 ++ IcmpProc.packetByte packet 39 ++
    IcmpProc.packetByte packet 40 ++ IcmpProc.packetByte packet 41

theorem received_bytes (beat2 beat3 beat4 beat5 : Beat) :
    received beat2 beat3 beat4 beat5 =
      ⟨Words.byte beat2.data 5,
        Words.byte beat2.data 6 ++ Words.byte beat2.data 7 ++ Words.byte beat3.data 0 ++
          Words.byte beat3.data 1 ++ Words.byte beat3.data 2 ++ Words.byte beat3.data 3,
        Words.byte beat3.data 4 ++ Words.byte beat3.data 5 ++ Words.byte beat3.data 6 ++
          Words.byte beat3.data 7,
        Words.byte beat4.data 6 ++ Words.byte beat4.data 7 ++ Words.byte beat5.data 0 ++
          Words.byte beat5.data 1⟩ := by
  simp only [received, Received.mk.injEq]
  refine ⟨?_, ?_, ?_, ?_⟩
  all_goals
    apply BitVec.eq_of_getLsbD_eq
    intro bit hbit
    simp only [BitVec.getLsbD_append, Words.getLsbD_byte]
    interval_cases bit <;> simp

theorem packetReceived_eq {packet : List Beat} (hlength : 6 ≤ packet.length) (rest : List Beat) :
    packetReceived (packet ++ rest) = some (packetFields packet) := by
  obtain ⟨_, _, beat2, beat3, beat4, beat5, tail, rfl⟩ := exists_six_beats hlength
  exact congrArg some (received_bytes beat2 beat3 beat4 beat5)

/-- The fields shown as a stream moves through the window. -/
def shown : List Beat → List Received
  | [] => []
  | beat :: rest =>
      (if beat.first then (packetReceived (beat :: rest)).toList else []) ++ shown rest

theorem shown_unmarked {front : List Beat} (hfront : ∀ beat ∈ front, beat.first = false)
    (rest : List Beat) : shown (front ++ rest) = shown rest := by
  induction front with
  | nil => rfl
  | cons beat front ih =>
      rw [List.cons_append, shown, hfront beat List.mem_cons_self,
        ih fun other hother => hfront other (List.mem_cons_of_mem _ hother)]
      rfl

theorem packetReceived_of_short {stream : List Beat} (hlength : stream.length < 6) :
    packetReceived stream = none := by
  unfold packetReceived
  split
  next =>
    simp only [List.length_cons] at hlength
    omega
  next => rfl

/-- Beats too few for the window show nothing. -/
theorem shown_of_short {stream : List Beat} (hlength : stream.length < 6) : shown stream = [] := by
  induction stream with
  | nil => rfl
  | cons beat rest ih =>
      rw [shown, packetReceived_of_short hlength, ih (Nat.lt_of_succ_lt hlength)]
      split_ifs <;> rfl

/-- A packet is shown once, from its first beat. -/
theorem shown_packet {packet : List Beat} (hpacket : Headed Beat.first packet)
    (rest : List Beat) :
    shown (packet ++ rest) = (packetReceived (packet ++ rest)).toList ++ shown rest := by
  cases packet with
  | nil => exact hpacket.elim
  | cons first body =>
      rw [List.cons_append, shown, if_pos hpacket.1, shown_unmarked hpacket.2]

/-- The registers before any delivery show nothing. -/
theorem shown_idle (stream : List Beat) :
    shown (List.replicate 5 zeroBeat ++ stream) = shown stream := by
  apply shown_unmarked
  intro beat hbeat
  rw [List.eq_of_mem_replicate hbeat]
  rfl

/-- Packets of at least six beats are shown one by one. -/
theorem shown_packets {packets : List (List Beat)}
    (hpackets : ∀ packet ∈ packets, SixBeats packet) :
    shown packets.flatten = packets.map packetFields := by
  induction packets with
  | nil => rfl
  | cons packet rest ih =>
      obtain ⟨hlength, hheaded⟩ := hpackets packet List.mem_cons_self
      rw [List.flatten_cons, shown_packet hheaded, packetReceived_eq hlength,
        ih fun other hother => hpackets other (List.mem_cons_of_mem _ hother)]
      rfl

/-! ## The law of the log -/

section Law

variable (config : Config) (call : Call)

/-- A call takes out of what the window will show what it evaluates. -/
theorem step_shown :
    (evaluated config.state).toList ++ shown ((step addresses config call).state.window ++
        (step addresses config call).input) =
      shown (config.state.window ++ config.input) := by
  rw [step_window, (beforeControl_window addresses config call).2]
  cases hstage0 : config.state.inStage0 with
  | none =>
      have hnone : evaluated config.state = none := by simp only [evaluated, hstage0]
      rw [hnone]
      rfl
  | some inStage0 =>
      simp only [evaluated, hstage0, ArpState.window, occupied_some, Option.toList_some,
        List.cons_append, List.nil_append, List.drop_succ_cons, List.drop_zero]
      rw [shown.eq_2 config.state.inStage5, packetReceived]
      by_cases hfirst : config.state.inStage5.sop = 0#8 <;> simp [Beat.first, hfirst]

theorem run_shown (schedule : List Call) :
    (evaluations addresses config schedule).map Evaluation.recv ++
        shown ((run addresses config schedule).state.window ++
          (run addresses config schedule).input) =
      shown (config.state.window ++ config.input) := by
  induction schedule generalizing config with
  | nil => rfl
  | cons call rest ih =>
      have hfirst : (evaluation config.state).toList.map Evaluation.recv =
          (evaluated config.state).toList := by
        cases hrecv : evaluated config.state <;> simp [evaluation, hrecv]
      rw [← step_shown addresses config call, ← ih (step addresses config call), evaluations,
        List.map_append, hfirst, List.append_assoc]
      rfl

/-- Every beat has been read and processed. -/
def Config.Drained (config : Config) : Prop :=
  config.input = [] ∧ config.state.inStage0 = none

/-- Every call that is served reads the next beat. -/
theorem step_reads :
    (step addresses config call).input =
        (if call.deliver then config.input.tail else config.input) ∧
      (step addresses config call).state.inStage0 =
        if call.deliver then config.input.head? else none := by
  have hfree : (modeControl (config.beforeControl addresses call)).inStage0 = none :=
    (modeControl_inStage0 _).trans (beforeControl_window addresses config call).1
  have hfill : ((step addresses config call).state.inStage0, (step addresses config call).input) =
      ((⟨config.input, call.deliver⟩ : StreamIn Beat).tryRead.1,
        (⟨config.input, call.deliver⟩ : StreamIn Beat).tryRead.2.queue) := by
    rw [← StreamIn.fill_none, ← hfree]
    simp only [step, arpProc, outputStage_eq]
    rfl
  obtain ⟨hstage0, hinput⟩ := Prod.mk.inj hfill
  rw [hstage0, hinput]
  cases call.deliver <;> cases config.input <;> exact ⟨rfl, rfl⟩

theorem step_drained (config : Config) (call : Call) (hdrained : config.Drained) :
    (step addresses config call).Drained := by
  obtain ⟨hinput, hstage0⟩ := step_reads addresses config call
  rw [Config.Drained, hinput, hstage0, hdrained.1]
  split_ifs <;> exact ⟨rfl, rfl⟩

theorem run_drained (schedule : List Call) (config : Config) (hdrained : config.Drained) :
    (run addresses config schedule).Drained :=
  foldl_invariant (fun config call => step_drained addresses config call) schedule _ hdrained

/-- Calls that are served more often than there are beats leave none unprocessed. -/
theorem run_reads (schedule : List Call)
    (hserved : config.input.length < (schedule.filter Call.deliver).length) :
    (run addresses config schedule).Drained := by
  induction schedule generalizing config with
  | nil => simp at hserved
  | cons call rest ih =>
      obtain ⟨hinput, hstage0⟩ := step_reads addresses config call
      cases hdeliver : call.deliver with
      | false =>
          simp only [hdeliver, Bool.false_eq_true, if_false] at hinput
          rw [List.filter_cons_of_neg (by simp [hdeliver]), ← hinput] at hserved
          exact ih (step addresses config call) hserved
      | true =>
          simp only [hdeliver, if_true] at hinput hstage0
          rw [List.filter_cons_of_pos hdeliver, List.length_cons] at hserved
          cases hqueue : config.input with
          | nil =>
              rw [hqueue] at hinput hstage0
              exact run_drained addresses rest (step addresses config call) ⟨hinput, hstage0⟩
          | cons beat queue =>
              apply ih (step addresses config call)
              rw [hinput, hqueue, List.tail_cons]
              rw [hqueue, List.length_cons] at hserved
              omega

end Law

/-! ## Requests for `OWN_IP` -/

/-- `recv_arp_op` is a request and `is_req_own_ip` holds. -/
def Received.ForOwnIp (recv : Received) : Prop :=
  recv.arpOp = 0x01#8 ∧ recv.dstIp = addresses.ownIp

instance (recv : Received) : Decidable (recv.ForOwnIp addresses) :=
  inferInstanceAs (Decidable (recv.arpOp = 0x01#8 ∧ recv.dstIp = addresses.ownIp))

/-- A request for `OWN_IP` is accepted unless a reply is pending. -/
theorem accepted_eq (state : ArpState) :
    accepted addresses state = (evaluated state).filter fun recv =>
      decide (recv.ForOwnIp addresses ∧ state.outSendArpRpyStdby = false) := by
  apply Option.ext
  intro request
  rw [accepted_eq_some_iff, Option.filter_eq_some_iff, decide_eq_true_eq, Received.ForOwnIp,
    and_assoc]

/-- The frame is a reply. -/
def Frame.isReply : Frame → Bool
  | .request => false
  | .reply _ => true

/-- Accepted requests are answered or pending. -/
def Answered (config : Config) : Prop :=
  config.requests.length =
    (config.frames.filter Frame.isReply).length + config.state.outSendArpRpyStdby.toNat

/-- An accepted request sets the pending flag, which was clear. -/
theorem beforeControl_pending (config : Config) (call : Call) :
    (config.beforeControl addresses call).outSendArpRpyStdby.toNat =
      config.state.outSendArpRpyStdby.toNat +
        (accepted addresses config.state).toList.length := by
  cases haccepted : accepted addresses config.state with
  | none =>
      rw [(beforeControl_of_not_accepted addresses config call haccepted).stdby]
      rfl
  | some request =>
      have hfree : config.state.outSendArpRpyStdby = false := by
        rw [accepted_eq, Option.filter_eq_some_iff, decide_eq_true_eq] at haccepted
        exact haccepted.2.2
      rw [(beforeControl_of_accepted addresses config call haccepted).2.2, hfree]
      rfl

/-- `out_send_mode` control turns the pending flag into a reply. -/
theorem modeControl_pending (state : ArpState) {requests : List Received}
    (hpending : state.outSendArpRpyStdby = true → requests ≠ []) :
    ((started state requests).filter Frame.isReply).length +
        (modeControl state).outSendArpRpyStdby.toNat =
      state.outSendArpRpyStdby.toNat := by
  unfold started modeControl
  split_ifs with hidle hreply hrequest
  · obtain ⟨newest, rest, rfl⟩ := List.exists_cons_of_ne_nil (hpending hreply)
    rw [hreply]
    rfl
  · simp [Frame.isReply]
  · simp
  · simp

theorem step_answered (config : Config) (call : Call) (hstored : Stored config)
    (hanswered : Answered config) : Answered (step addresses config call) := by
  have hpending := (beforeControl_stored addresses config call hstored).2
  have hbefore := beforeControl_pending addresses config call
  have hcontrol := modeControl_pending (config.beforeControl addresses call)
    fun hstdby => hpending (Or.inl hstdby)
  unfold Answered at hanswered ⊢
  rw [step_frames, (step_state addresses config call).2.stdby, List.filter_append,
    List.length_append, step_requests, List.length_append]
  rw [step_requests] at hcontrol
  omega

theorem run_answered (schedule : List Call) (config : Config) (hstored : Stored config)
    (hanswered : Answered config) : Answered (run addresses config schedule) := by
  induction schedule generalizing config with
  | nil => exact hanswered
  | cons call rest ih =>
      apply ih (step addresses config call)
      · exact step_stored addresses config call hstored
      · exact step_answered addresses config call hstored hanswered

/-- The evaluation is of a request for `OWN_IP`. -/
def Evaluation.forOwnIp (entry : Evaluation) : Bool :=
  decide (entry.recv.ForOwnIp addresses)

/-- Of the requests for `OWN_IP` exactly those that find a reply pending are not
accepted. -/
theorem accepted_length (state : ArpState) :
    (evaluation state).toList.countP (Evaluation.forOwnIp addresses) =
      (accepted addresses state).toList.length + (evaluation state).toList.countP fun entry =>
        entry.forOwnIp addresses && entry.pending := by
  rw [accepted_eq, evaluation]
  cases evaluated state with
  | none => rfl
  | some recv =>
      by_cases hown : recv.ForOwnIp addresses <;> cases hstdby : state.outSendArpRpyStdby <;>
        simp [Evaluation.forOwnIp, hown, Option.filter_some]

theorem run_accepted (schedule : List Call) (config : Config) :
    (evaluations addresses config schedule).countP (Evaluation.forOwnIp addresses) +
        config.requests.length =
      (run addresses config schedule).requests.length +
        (evaluations addresses config schedule).countP fun entry =>
          entry.forOwnIp addresses && entry.pending := by
  induction schedule generalizing config with
  | nil => simp [evaluations, run]
  | cons call rest ih =>
      have hfirst := accepted_length addresses config.state
      have hrest := ih (step addresses config call)
      rw [step_requests, List.length_append] at hrest
      rw [evaluations, List.countP_append, List.countP_append]
      simp only [run, List.foldl_cons] at hrest ⊢
      omega

/-! ## The guarantee -/

/-- Packets of at least six beats are evaluated in order, each once and by its own
bytes, and all of them once there have been calls enough. At every moment the
requests for `OWN_IP` among them are those answered, the one pending and those that
found a reply pending. -/
theorem arpProc_evaluates_once (packets : List (List Beat))
    (hpackets : ∀ packet ∈ packets, SixBeats packet) (pps : List (BitVec 8))
    (schedule : List Call) :
    let config := run addresses (start packets.flatten pps) schedule
    let log := evaluations addresses (start packets.flatten pps) schedule
    log.map Evaluation.recv <+: packets.map packetFields ∧
      (packets.flatten.length < (schedule.filter Call.deliver).length →
        log.map Evaluation.recv = packets.map packetFields) ∧
      log.countP (Evaluation.forOwnIp addresses) =
        config.frames.countP Frame.isReply + config.state.outSendArpRpyStdby.toNat +
          log.countP fun entry => entry.forOwnIp addresses && entry.pending := by
  intro config log
  have hshown : log.map Evaluation.recv ++ shown (config.state.window ++ config.input) =
      packets.map packetFields := by
    rw [run_shown, ← shown_packets hpackets]
    exact shown_idle packets.flatten
  have hanswered := run_answered addresses schedule (start packets.flatten pps)
    (start_stored packets.flatten pps) rfl
  have haccepted := run_accepted addresses schedule (start packets.flatten pps)
  refine ⟨⟨_, hshown⟩, ?_, ?_⟩
  · intro hserved
    obtain ⟨hinput, hstage0⟩ := run_reads addresses (start packets.flatten pps) schedule hserved
    have hnone : shown (config.state.window ++ config.input) = [] := by
      rw [hinput, ArpState.window, hstage0]
      exact shown_of_short (by simp)
    rwa [hnone, List.append_nil] at hshown
  · rw [Answered, ← List.countP_eq_length_filter] at hanswered
    simp only [start, List.length_nil, Nat.add_zero] at haccepted
    rw [← hanswered]
    exact haccepted

theorem arpProc_evaluates_once_twoRequests :
    (∀ packet ∈ twoRequests, SixBeats packet) ∧
      (evaluations .default (start twoRequests.flatten []) (List.replicate 30 served)).map
        Evaluation.recv = twoRequests.map packetFields := by
  have hpackets : ∀ packet ∈ twoRequests, SixBeats packet := by decide
  exact ⟨hpackets, (arpProc_evaluates_once .default twoRequests hpackets []
    (List.replicate 30 served)).2.1 (by decide)⟩

end IcmpServer.ArpProc
