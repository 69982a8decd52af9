import IcmpServer.ArpProc.Evaluations
import IcmpServer.RxSplit.Filters

/-! # What the dispatch flow decides

The window takes six beats from the first one of a packet on, wherever the packet
ends. Behind a shorter packet it shows fields that belong to two packets, and the
dispatch flow decides on them as on any others.
-/

namespace IcmpServer.ArpProc

open Elastic

variable (addresses : Addresses)

/-! ## Decisions -/

/-- The dispatch flow triggers a reply, refreshes the cache or ignores the packet. -/
inductive Decision
  | reply
  | refresh
  | ignore
deriving DecidableEq, Repr

/-- The branch that the dispatch flow takes. -/
def decision (recv : Received) (outSendArpRpyStdby : Bool) : Decision :=
  if recv.arpOp = 0x01#8 then
    if recv.dstIp = addresses.ownIp ∧ outSendArpRpyStdby = false then .reply
    else if recv.dstIp = addresses.gtwIp ∧ recv.srcIp = addresses.gtwIp then .refresh
    else .ignore
  else if recv.srcIp = addresses.gtwIp then .refresh
  else .ignore

/-- The dispatch flow is the three branches. -/
theorem dispatch_eq (state : ArpState) (recv : Received) :
    dispatch addresses state recv =
      match decision addresses recv state.outSendArpRpyStdby with
      | .reply =>
          { state with rpyMac := recv.srcMac, rpyIp := recv.srcIp, outSendArpRpyStdby := true }
      | .refresh => refreshCache state recv
      | .ignore => state := by
  unfold dispatch decision
  split_ifs <;> rfl

/-- What is ignored while no reply is pending is always ignored. -/
theorem decision_of_ignored {recv : Received}
    (hignored : decision addresses recv false = .ignore) (outSendArpRpyStdby : Bool) :
    decision addresses recv outSendArpRpyStdby = .ignore := by
  cases outSendArpRpyStdby with
  | false => exact hignored
  | true =>
      unfold decision at hignored ⊢
      split_ifs at hignored ⊢ <;> simp_all

/-- The fields that the dispatch flow does not ignore. -/
def triggered (state : ArpState) : Option Received :=
  (evaluated state).filter fun recv =>
    decide (decision addresses recv state.outSendArpRpyStdby ≠ .ignore)

/-- A request is accepted by the first branch. -/
theorem accepted_of_not_triggered {state : ArpState} (hnone : triggered addresses state = none) :
    accepted addresses state = none := by
  cases haccepted : accepted addresses state with
  | none => rfl
  | some request =>
      obtain ⟨hevaluated, hop, hown, hfree⟩ := (accepted_eq_some_iff addresses _ _).mp haccepted
      have hreply : decision addresses request state.outSendArpRpyStdby = .reply := by
        rw [decision, if_pos hop, if_pos (And.intro hown hfree)]
      simp [triggered, hevaluated, Option.filter_some, hreply] at hnone

/-! ## What is learned -/

/-- The addresses that the dispatch flow stores. -/
structure Learned where
  rpyMac : BitVec 48
  rpyIp : BitVec 32
  gtwMac : BitVec 48
deriving DecidableEq, Repr

def ArpState.learned (state : ArpState) : Learned :=
  ⟨state.rpyMac, state.rpyIp, state.gtwMac⟩

def Learned.update (learned : Learned) (recv : Received) : Decision → Learned
  | .reply => { learned with rpyMac := recv.srcMac, rpyIp := recv.srcIp }
  | .refresh => { learned with gtwMac := recv.srcMac }
  | .ignore => learned

theorem dispatch_learned (state : ArpState) (recv : Received) :
    (dispatch addresses state recv).learned =
      state.learned.update recv (decision addresses recv state.outSendArpRpyStdby) := by
  rw [dispatch_eq]
  cases decision addresses recv state.outSendArpRpyStdby <;> rfl

theorem inputStage_learned (state : ArpState) :
    (inputStage addresses state).learned = (evaluated state).elim state.learned fun recv =>
      state.learned.update recv (decision addresses recv state.outSendArpRpyStdby) := by
  cases hstage0 : state.inStage0 with
  | none => simp only [inputStage, evaluated, hstage0, Option.elim_none]
  | some inStage0 =>
      simp only [inputStage, evaluated, hstage0]
      split_ifs
      · exact dispatch_learned addresses state _
      · rfl

/-- The sections before the dispatch have no part in it. -/
theorem evaluated_ppsStage (state : ArpState) (accept ppsEn : Bool) :
    evaluated (ppsStage (sendStage addresses (flushed state accept)) ppsEn) = evaluated state ∧
      (ppsStage (sendStage addresses (flushed state accept)) ppsEn).learned = state.learned :=
  ⟨ppsStage_keeps addresses evaluated (fun _ _ => rfl) (fun _ _ _ _ => rfl) _ _ _,
    ppsStage_keeps addresses ArpState.learned (fun _ _ => rfl) (fun _ _ _ _ => rfl) _ _ _⟩

/-- A call stores what its evaluation says. -/
theorem step_learned (config : Config) (call : Call) :
    (step addresses config call).state.learned =
      (evaluated config.state).elim config.state.learned fun recv =>
        config.state.learned.update recv
          (decision addresses recv config.state.outSendArpRpyStdby) := by
  obtain ⟨hevaluated, hlearned⟩ :=
    evaluated_ppsStage addresses config.state call.accept (config.ppsEn call)
  have hstdby :=
    (ppsStage_reply addresses config.state call.accept (config.ppsEn call)).stdby
  have hcontrol : ∀ state, (modeControl state).learned = state.learned := by
    intro state
    unfold modeControl
    split_ifs <;> rfl
  calc (step addresses config call).state.learned
      = (modeControl (config.beforeControl addresses call)).learned := by
        simp only [step, arpProc, outputStage_eq]
        rfl
    _ = (config.beforeControl addresses call).learned := hcontrol _
    _ = _ := by rw [Config.beforeControl, inputStage_learned, hevaluated, hlearned, hstdby]

/-- Without a trigger a call leaves the cache and what is stored for the reply. -/
theorem step_of_not_triggered (config : Config) (call : Call)
    (hnone : triggered addresses config.state = none) :
    (step addresses config call).state.gtwMac = config.state.gtwMac ∧
      SameReply config.state (config.beforeControl addresses call) := by
  have hlearned : (step addresses config call).state.learned = config.state.learned := by
    rw [step_learned]
    cases hrecv : evaluated config.state with
    | none => rfl
    | some recv =>
        rw [triggered, Option.filter_eq_none_iff] at hnone
        have hignored := hnone recv hrecv
        simp only [ne_eq, decide_not, Bool.not_eq_true, Bool.not_eq_false', decide_eq_true_eq]
          at hignored
        rw [Option.elim_some, hignored]
        rfl
  exact ⟨congrArg Learned.gtwMac hlearned, beforeControl_of_not_accepted addresses config call
    (accepted_of_not_triggered addresses hnone)⟩

/-! ## Short packets -/

/-- What a packet of fewer than six beats shows together with the packets behind
it is ignored. -/
def Separate : List (List Beat) → Prop
  | [] => True
  | packet :: after =>
      (packet.length < 6 → ∀ recv ∈ packetReceived (packet ++ after.flatten),
        decision addresses recv false = .ignore) ∧ Separate after

instance decidableSeparate : ∀ packets, Decidable (Separate addresses packets)
  | [] => isTrue trivial
  | packet :: after =>
      have : Decidable (Separate addresses after) := decidableSeparate after
      inferInstanceAs (Decidable ((packet.length < 6 →
        ∀ recv ∈ packetReceived (packet ++ after.flatten),
          decision addresses recv false = .ignore) ∧ Separate addresses after))

theorem Separate.of_append {before : List (List Beat)} {packet : List Beat}
    {after : List (List Beat)} (hseparate : Separate addresses (before ++ packet :: after))
    (hshort : packet.length < 6) {recv : Received}
    (hrecv : packetReceived (packet ++ after.flatten) = some recv) :
    decision addresses recv false = .ignore := by
  induction before with
  | nil => exact hseparate.1 hshort recv hrecv
  | cons _ _ ih => exact ih hseparate.2

/-- The packet in the window is a long one and has the fields. -/
def Justified (packets : List (List Beat)) (config : Config) (recv : Received) : Prop :=
  ∃ before packet after, packets = before ++ packet :: after ∧ 6 ≤ packet.length ∧
    config.state.window ++ config.input = packet ++ after.flatten ∧ recv = packetFields packet

/-- In runs on packets of which the short ones show nothing together with their
successors, every trigger is justified by the one packet in the window. -/
theorem arpProc_separates (packets : List (List Beat))
    (hpackets : ∀ packet ∈ packets, Headed Beat.first packet)
    (hseparate : Separate addresses packets) (pps : List (BitVec 8)) (schedule : List Call) :
    let config := run addresses (start packets.flatten pps) schedule
    (∀ recv ∈ triggered addresses config.state, Justified packets config recv) ∧
      ∀ call, triggered addresses config.state = none →
        (step addresses config call).state.gtwMac = config.state.gtwMac ∧
          SameReply config.state (config.beforeControl addresses call) := by
  intro config
  refine ⟨?_, fun call hnone => step_of_not_triggered addresses config call hnone⟩
  intro recv hrecv
  rw [triggered, Option.mem_def, Option.filter_eq_some_iff, decide_eq_true_eq] at hrecv
  have hwatching : Watching packets.flatten config :=
    run_watching addresses schedule _ (start_watching packets.flatten pps)
  obtain ⟨before, packet, after, hsplit, hwindow, hreceived⟩ :=
    evaluated_packet hpackets hwatching hrecv.1
  rcases Nat.lt_or_ge packet.length 6 with hshort | hlong
  · rw [hsplit] at hseparate
    have hignored := hseparate.of_append addresses hshort hreceived
    exact absurd (decision_of_ignored addresses hignored _) hrecv.2
  · rw [packetReceived_eq hlong, Option.some.injEq] at hreceived
    exact ⟨before, packet, after, hsplit, hlong, hwindow, hreceived.symm⟩

/-! ## A request out of two packets -/

/-- A packet as it comes from the ARP port of `rx_split_by_etype`. -/
def ArpPacket (packet : List Beat) : Prop :=
  Headed Beat.first packet ∧ IsPacket Beat.last packet ∧ RxSplit.etypeRoute packet = .arp

instance (packet : List Beat) : Decidable (ArpPacket packet) :=
  inferInstanceAs (Decidable (Headed Beat.first packet ∧ IsPacket Beat.last packet ∧
    RxSplit.etypeRoute packet = .arp))

/-- Two beats of a request. -/
def shortPkt : List Beat :=
  [⟨0xffffffffffff0600#64, 1#8, 0#8, 0#8⟩, ⟨0x0000000208060001#64, 0#8, 1#8, 0#8⟩]

/-- A reply from c0:a8:02:64:00:01 to 06:00:00:00:00:01. -/
def craftedPkt : List Beat :=
  [⟨0x0600000000010600#64, 1#8, 0#8, 0#8⟩, ⟨0x0000000208060001#64, 0#8, 0#8, 0#8⟩,
    ⟨0x080006040002c0a8#64, 0#8, 0#8, 0#8⟩, ⟨0x026400010a000005#64, 0#8, 0#8, 0#8⟩,
    ⟨0x060000000000c0a8#64, 0#8, 0#8, 0#8⟩, ⟨0x0264000000000000#64, 0#8, 1#8, 6#8⟩]

theorem arpProc_separates_shortPkt :
    (∀ packet ∈ shortPkt :: twoRequests, Headed Beat.first packet) ∧
      Separate .default (shortPkt :: twoRequests) ∧
      Justified (shortPkt :: twoRequests)
        (run .default (start (shortPkt :: twoRequests).flatten []) (List.replicate 8 served))
        ⟨0x01#8, 0x060000000001#48, 0xc0a80205#32, 0xc0a80264#32⟩ := by
  have hpackets : ∀ packet ∈ shortPkt :: twoRequests, Headed Beat.first packet := by decide
  have hseparate : Separate .default (shortPkt :: twoRequests) := by decide
  exact ⟨hpackets, hseparate, (arpProc_separates .default _ hpackets hseparate []
    (List.replicate 8 served)).1 _ (by decide)⟩

/-- The two beats and the first four behind them make a request for `OWN_IP`. -/
theorem arpProc_combines_craftedPkt :
    (∀ packet ∈ [shortPkt, craftedPkt], ArpPacket packet) ∧
      ∃ recv ∈ triggered .default
          (run .default (start [shortPkt, craftedPkt].flatten []) (List.replicate 6 served)).state,
        ¬ Justified [shortPkt, craftedPkt]
          (run .default (start [shortPkt, craftedPkt].flatten []) (List.replicate 6 served))
          recv := by
  refine ⟨by decide, ⟨0x01#8, 0x060000000002#48, 0x08060001#32, 0xc0a80264#32⟩, by decide, ?_⟩
  rintro ⟨before, packet, after, hsplit, hlong, -, hfields⟩
  have hmem : packet ∈ [shortPkt, craftedPkt] := by simp [hsplit]
  rcases List.mem_pair.mp hmem with rfl | rfl
  · exact absurd hlong (by decide)
  · exact absurd hfields (by decide)

end IcmpServer.ArpProc
