import IcmpServer.ArpProc.Sending

/-! # The requests received

The receive stages are a window of six beats that moves over the input. A beat
with `sop` in the oldest stage is the first of a packet, so what the dispatch
flow sees is the head of that packet.
-/

namespace IcmpServer.ArpProc

open Elastic

variable (addresses : Addresses)

/-- `in_stage5` to `in_stage0`, oldest beat first. -/
def ArpState.window (state : ArpState) : List Beat :=
  [state.inStage5, state.inStage4, state.inStage3, state.inStage2, state.inStage1] ++
    state.inStage0.toList

/-- The window, behind the older beats and in front of those not read. -/
def Watching (stream : List Beat) (config : Config) : Prop :=
  ∃ older, List.replicate 5 zeroBeat ++ stream = older ++ (config.state.window ++ config.input)

/-! ## One call -/

theorem dispatch_window (state : ArpState) (recv : Received) :
    (dispatch addresses state recv).inStage0 = state.inStage0 ∧
      (dispatch addresses state recv).window = state.window := by
  unfold dispatch
  split_ifs <;> exact ⟨rfl, rfl⟩

theorem pushStages_window (state : ArpState) {inStage0 : Beat}
    (hstage0 : state.inStage0 = some inStage0) :
    state.window = state.inStage5 :: (pushStages state inStage0).window := by
  simp [ArpState.window, hstage0, pushStages]

/-- Once a beat has been processed the oldest one is gone. -/
theorem inputStage_window (state : ArpState) :
    (inputStage addresses state).inStage0 = none ∧
      (inputStage addresses state).window = state.window.drop (occupied state.inStage0) := by
  cases hstage0 : state.inStage0 with
  | none =>
      have hsame : inputStage addresses state = state := by simp only [inputStage, hstage0]
      rw [hsame]
      exact ⟨hstage0, rfl⟩
  | some inStage0 =>
      obtain ⟨hstays, hwindow⟩ := dispatch_window addresses state
        (received state.inStage3 state.inStage2 state.inStage1 inStage0)
      simp only [inputStage, hstage0]
      refine ⟨rfl, ?_⟩
      split_ifs
      · rw [← hwindow, pushStages_window _ (hstays.trans hstage0)]
        rfl
      · rw [pushStages_window _ hstage0]
        rfl

/-- The other sections do not touch the receive stages. -/
theorem beforeControl_window (config : Config) (call : Call) :
    (config.beforeControl addresses call).inStage0 = none ∧
      (config.beforeControl addresses call).window =
        config.state.window.drop (occupied config.state.inStage0) := by
  have hstage0 := ppsStage_keeps addresses ArpState.inStage0 (fun _ _ => rfl)
    (fun _ _ _ _ => rfl) config.state call.accept (config.ppsEn call)
  have hwindow := ppsStage_keeps addresses ArpState.window (fun _ _ => rfl)
    (fun _ _ _ _ => rfl) config.state call.accept (config.ppsEn call)
  have hinput := inputStage_window addresses
    (ppsStage (sendStage addresses (flushed config.state call.accept)) (config.ppsEn call))
  rwa [hstage0, hwindow] at hinput

theorem modeControl_window (state : ArpState) : (modeControl state).window = state.window := by
  unfold modeControl
  split_ifs <;> rfl

theorem modeControl_inStage0 (state : ArpState) :
    (modeControl state).inStage0 = state.inStage0 := by
  unfold modeControl
  split_ifs <;> rfl

variable {stream : List Beat} (config : Config) (call : Call)

/-- A read moves the next beat of the input into the window. -/
theorem step_window :
    (step addresses config call).state.window ++ (step addresses config call).input =
      (config.beforeControl addresses call).window ++ config.input := by
  have hfill := (⟨config.input, call.deliver⟩ : StreamIn Beat).fill_append
    (modeControl (config.beforeControl addresses call)).inStage0
  rw [← modeControl_window (config.beforeControl addresses call), ArpState.window, ArpState.window,
    List.append_assoc, List.append_assoc, ← hfill]
  simp only [step, arpProc, outputStage_eq]
  rfl

/-- The window moves over the input. -/
theorem step_isSuffix :
    (step addresses config call).state.window ++ (step addresses config call).input <:+
      config.state.window ++ config.input := by
  refine ⟨config.state.window.take (occupied config.state.inStage0), ?_⟩
  rw [step_window, (beforeControl_window addresses config call).2, ← List.append_assoc,
    List.take_append_drop]

theorem run_isSuffix (schedule : List Call) (config : Config) :
    (run addresses config schedule).state.window ++ (run addresses config schedule).input <:+
      config.state.window ++ config.input := by
  induction schedule generalizing config with
  | nil => exact List.suffix_rfl
  | cons call rest ih =>
      exact (ih (step addresses config call)).trans (step_isSuffix addresses config call)

theorem step_watching (hwatching : Watching stream config) :
    Watching stream (step addresses config call) := by
  obtain ⟨older, holder⟩ := hwatching
  obtain ⟨gone, hgone⟩ := step_isSuffix addresses config call
  exact ⟨older ++ gone, by rw [holder, ← hgone, List.append_assoc]⟩

theorem run_watching (schedule : List Call) (config : Config)
    (hwatching : Watching stream config) : Watching stream (run addresses config schedule) :=
  foldl_invariant (fun config call => step_watching addresses config call) schedule _ hwatching

theorem start_watching (stream : List Beat) (pps : List (BitVec 8)) :
    Watching stream (start stream pps) :=
  ⟨[], rfl⟩

/-! ## What is evaluated -/

/-- The fields that the dispatch flow evaluates in a call. -/
def evaluated (state : ArpState) : Option Received :=
  match state.inStage0 with
  | none => none
  | some inStage0 =>
      if state.inStage5.sop ≠ 0#8 then
        some (received state.inStage3 state.inStage2 state.inStage1 inStage0)
      else none

/-- The fields of a packet of at least six beats. -/
def packetReceived : List Beat → Option Received
  | _ :: _ :: beat2 :: beat3 :: beat4 :: beat5 :: _ => some (received beat2 beat3 beat4 beat5)
  | _ => none

/-- The dispatch flow evaluates the beats from the first one of a packet on. -/
theorem evaluated_packet {packets : List (List Beat)}
    (hpackets : ∀ packet ∈ packets, Headed Beat.first packet) {config : Config}
    (hwatching : Watching packets.flatten config) {recv : Received}
    (hevaluated : evaluated config.state = some recv) :
    ∃ before packet after, packets = before ++ packet :: after ∧
      config.state.window ++ config.input = packet ++ after.flatten ∧
      packetReceived (packet ++ after.flatten) = some recv := by
  obtain ⟨older, holder⟩ := hwatching
  cases hstage0 : config.state.inStage0 with
  | none => simp [evaluated, hstage0] at hevaluated
  | some inStage0 =>
      simp only [evaluated, hstage0, Option.ite_none_right_eq_some, Option.some.injEq]
        at hevaluated
      obtain ⟨hsop, rfl⟩ := hevaluated
      rw [ArpState.window, hstage0] at holder ⊢
      simp only [List.cons_append, List.nil_append, Option.toList_some] at holder ⊢
      have hfirst : Beat.first config.state.inStage5 = true := by
        simpa [Beat.first] using hsop
      -- the beats in the registers before any delivery carry no first mark
      obtain ⟨before, packet, after, hsplit, hbeats⟩ := exists_packet_of_mark hpackets
        (List.replicate 5 zeroBeat)
        (fun beat hbeat => by rw [List.eq_of_mem_replicate hbeat]; rfl) hfirst holder
      refine ⟨before, packet, after, hsplit, hbeats, ?_⟩
      rw [← hbeats]
      rfl

/-! ## Requests are packets -/

/-- The packet is a request for `OWN_IP`. -/
def IsRequest (packet : List Beat) (request : Received) : Prop :=
  packetReceived packet = some request ∧ request.arpOp = 0x01#8 ∧
    request.dstIp = addresses.ownIp

/-- Packets of at least six beats with `sop` on exactly the first. -/
def SixBeats (packet : List Beat) : Prop :=
  6 ≤ packet.length ∧ Headed Beat.first packet

instance (packet : List Beat) : Decidable (SixBeats packet) :=
  inferInstanceAs (Decidable (6 ≤ packet.length ∧ Headed Beat.first packet))

theorem accepted_eq_some_iff (state : ArpState) (request : Received) :
    accepted addresses state = some request ↔ evaluated state = some request ∧
      request.arpOp = 0x01#8 ∧ request.dstIp = addresses.ownIp ∧
      state.outSendArpRpyStdby = false := by
  cases hstage0 : state.inStage0 with
  | none => simp [accepted, evaluated, hstage0]
  | some inStage0 =>
      simp only [accepted, evaluated, hstage0, Option.ite_none_right_eq_some, Option.some.injEq]
      constructor
      · rintro ⟨⟨hsop, hrequest⟩, rfl⟩
        exact ⟨⟨hsop, rfl⟩, hrequest⟩
      · rintro ⟨⟨hsop, rfl⟩, hrequest⟩
        exact ⟨⟨hsop, hrequest⟩, rfl⟩

/-- Beats of a packet long enough for the fields. -/
theorem exists_six_beats {packet : List Beat} (hlength : 6 ≤ packet.length) :
    ∃ beat0 beat1 beat2 beat3 beat4 beat5 rest,
      packet = beat0 :: beat1 :: beat2 :: beat3 :: beat4 :: beat5 :: rest := by
  match packet, hlength with
  | beat0 :: beat1 :: beat2 :: beat3 :: beat4 :: beat5 :: rest, _ =>
      exact ⟨beat0, beat1, beat2, beat3, beat4, beat5, rest, rfl⟩

/-- The fields of a long packet do not depend on what follows. -/
theorem packetReceived_append {packet : List Beat} (hlength : 6 ≤ packet.length)
    (rest : List Beat) : packetReceived (packet ++ rest) = packetReceived packet := by
  obtain ⟨_, _, beat2, beat3, beat4, beat5, tail, rfl⟩ := exists_six_beats hlength
  rfl

theorem accepted_isRequest {packets : List (List Beat)}
    (hpackets : ∀ packet ∈ packets, SixBeats packet) {config : Config}
    (hwatching : Watching packets.flatten config) {request : Received}
    (haccepted : accepted addresses config.state = some request) :
    ∃ packet ∈ packets, IsRequest addresses packet request := by
  obtain ⟨hevaluated, hop, hown, -⟩ := (accepted_eq_some_iff addresses _ _).mp haccepted
  obtain ⟨before, packet, after, rfl, -, hreceived⟩ :=
    evaluated_packet (fun packet hmem => (hpackets packet hmem).2) hwatching hevaluated
  have hmem : packet ∈ before ++ packet :: after := by simp
  rw [packetReceived_append (hpackets packet hmem).1] at hreceived
  exact ⟨packet, hmem, hreceived, hop, hown⟩

/-- Replies are started for logged requests. -/
def Logged (config : Config) : Prop :=
  ∀ request, Frame.reply request ∈ config.frames → request ∈ config.requests

/-- Every logged request was received as a packet, and replies are started for
logged requests. -/
structure Provenance (packets : List (List Beat)) (config : Config) : Prop where
  watching : Watching packets.flatten config
  requests : ∀ request ∈ config.requests, ∃ packet ∈ packets, IsRequest addresses packet request
  logged : ∀ request, Frame.reply request ∈ config.frames → request ∈ config.requests

theorem started_logged {state : ArpState} {requests : List Received} {request : Received}
    (hframe : Frame.reply request ∈ started state requests) : request ∈ requests := by
  rw [started] at hframe
  split_ifs at hframe
  · cases requests with
    | nil => simp at hframe
    | cons newest rest =>
        obtain rfl : request = newest := by simpa using hframe
        exact List.mem_cons_self
  all_goals simp at hframe

theorem step_logged (hlogged : Logged config) : Logged (step addresses config call) := by
  intro request hframe
  rw [step_frames, List.mem_append] at hframe
  rcases hframe with hbefore | hstarted
  · exact List.mem_append_right _ (hlogged request hbefore)
  · exact started_logged hstarted

theorem run_logged (schedule : List Call) (config : Config) (hlogged : Logged config) :
    Logged (run addresses config schedule) :=
  foldl_invariant (fun config call => step_logged addresses config call) schedule _ hlogged

theorem step_provenance {packets : List (List Beat)}
    (hpackets : ∀ packet ∈ packets, SixBeats packet)
    (hconfig : Provenance addresses packets config) :
    Provenance addresses packets (step addresses config call) := by
  refine ⟨step_watching addresses config call hconfig.watching, ?_,
    step_logged addresses config call hconfig.logged⟩
  intro request hrequest
  rw [step_requests, List.mem_append, Option.mem_toList] at hrequest
  rcases hrequest with haccepted | hbefore
  · exact accepted_isRequest addresses hpackets hconfig.watching haccepted
  · exact hconfig.requests request hbefore

theorem run_provenance {packets : List (List Beat)}
    (hpackets : ∀ packet ∈ packets, SixBeats packet) (pps : List (BitVec 8))
    (schedule : List Call) :
    Provenance addresses packets (run addresses (start packets.flatten pps) schedule) :=
  foldl_invariant (fun config call => step_provenance addresses config call hpackets) schedule _
    ⟨start_watching packets.flatten pps, by simp [start], by simp [start]⟩

end IcmpServer.ArpProc
