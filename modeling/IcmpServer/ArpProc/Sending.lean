import IcmpServer.ArpProc.Component
import IcmpServer.Elastic.Frames
import IcmpServer.Elastic.Rounds

/-! # The frames sent

A run is kept with a log: the requests accepted and the frames started. What has
been sent is framed by the log, beat by beat, whatever arrives in between.
-/

namespace IcmpServer.ArpProc

open Elastic

variable (addresses : Addresses)

/-! ## Runs -/

/-- One entry of a schedule. -/
structure Call where
  deliver : Bool
  deliverPps : Bool
  accept : Bool
deriving DecidableEq, Repr

/-- A frame with the request that led to it. -/
inductive Frame
  | request
  | reply (request : Received)
deriving DecidableEq, Repr

/-- `arp_proc` with its inputs not yet read, the output written and the log. -/
structure Config where
  state : ArpState
  input : List Beat
  pps : List (BitVec 8)
  output : List Beat
  /-- The requests for `OWN_IP` accepted so far, newest first. -/
  requests : List Received
  /-- The frames started so far, oldest first. -/
  frames : List Frame
deriving DecidableEq, Repr

/-- Before the first call. -/
def start (input : List Beat) (pps : List (BitVec 8)) : Config :=
  ⟨ArpState.init, input, pps, [], [], []⟩

/-- The request accepted in a call: the dispatch flow stores its sender. -/
def accepted (state : ArpState) : Option Received :=
  match state.inStage0 with
  | none => none
  | some inStage0 =>
      let recv := received state.inStage3 state.inStage2 state.inStage1 inStage0
      if state.inStage5.sop ≠ 0#8 ∧ recv.arpOp = 0x01#8 ∧ recv.dstIp = addresses.ownIp ∧
          state.outSendArpRpyStdby = false then some recv
      else none

/-- The state behind the output stage. -/
def flushed (state : ArpState) (accept : Bool) : ArpState :=
  { state with outStageEn := state.outStageEn && !accept }

/-- A PPS pulse is read in the call. -/
def Config.ppsEn (config : Config) (call : Call) : Bool :=
  (⟨config.pps, call.deliverPps⟩ : StreamIn (BitVec 8)).tryRead.1.isSome

/-- The state of a call before `out_send_mode` control. -/
def Config.beforeControl (config : Config) (call : Call) : ArpState :=
  inputStage addresses
    (ppsStage (sendStage addresses (flushed config.state call.accept)) (config.ppsEn call))

/-- The frame that `out_send_mode` control starts, a reply for the newest request. -/
def started (state : ArpState) (requests : List Received) : List Frame :=
  if state.outSendMode = .idle then
    if state.outSendArpRpyStdby then requests.head?.toList.map .reply
    else if state.outSendArpReqStdby then [.request]
    else []
  else []

def step (config : Config) (call : Call) : Config :=
  let result := arpProc addresses config.state ⟨config.input, call.deliver⟩
    ⟨config.output, call.accept⟩ ⟨config.pps, call.deliverPps⟩
  let requests := (accepted addresses config.state).toList ++ config.requests
  { state := result.1
    input := result.2.1.queue
    pps := result.2.2.2.queue
    output := result.2.2.1.written
    requests
    frames := config.frames ++ started (config.beforeControl addresses call) requests }

/-- Any finite schedule. -/
def run (config : Config) (schedule : List Call) : Config :=
  schedule.foldl (step addresses) config

/-! ## Sections -/

/-- The beat in the output register. -/
def ArpState.staged (state : ArpState) : List Beat :=
  if state.outStageEn then [state.outStage] else []

/-- Beats written or on their way to the output. -/
def Config.sent (config : Config) : List Beat :=
  config.output ++ config.state.staged

/-- The beat that the send sequences place in a call. -/
def placed (state : ArpState) : List Beat :=
  if state.outStageEn then []
  else
    match state.outSendMode with
    | .idle => []
    | .arpRequest => [arpRequest addresses state.outSendIdx state.outStage]
    | .arpReply => [arpReply addresses state.rpyMac state.rpyIp state.outSendIdx state.outStage]

theorem outputStage_eq (state : ArpState) (chDatOut : StreamOut Beat) :
    outputStage state chDatOut =
      (flushed state chDatOut.accept,
        { chDatOut with
          written := chDatOut.written ++
            if state.outStageEn && chDatOut.accept then [state.outStage] else [] }) := by
  obtain ⟨written, accept⟩ := chDatOut
  obtain ⟨outStage, outStageEn⟩ := state
  cases outStageEn <;> cases accept <;> simp [outputStage, flushed, StreamOut.tryWrite]

/-- The send sequences wait or place a beat in the free output register. -/
theorem sendStage_cases (state : ArpState) :
    (sendStage addresses state = state ∧ placed addresses state = []) ∨
      (state.outSendMode ≠ .idle ∧ state.outStageEn = false ∧
        ∃ beat, sendStage addresses state = placeBeat state beat ∧
          placed addresses state = [beat]) := by
  cases hen : state.outStageEn with
  | true => simp [sendStage, placed, hen]
  | false => cases hmode : state.outSendMode <;> simp [sendStage, placed, hen, hmode]

/-- What a placed beat leaves alone, the send sequences leave alone. -/
theorem sendStage_keeps {ρ : Type} (read : ArpState → ρ)
    (hplace : ∀ state beat, read (placeBeat state beat) = read state) (state : ArpState) :
    read (sendStage addresses state) = read state := by
  rcases sendStage_cases addresses state with ⟨hstate, -⟩ | ⟨-, -, beat, hstate, -⟩
  · rw [hstate]
  · rw [hstate, hplace]

/-- The sections in front of the dispatch write the output register with its enable
flag, the send sequence, the countdown and the request flag. -/
theorem ppsStage_keeps {ρ : Type} (read : ArpState → ρ)
    (hplace : ∀ state beat, read (placeBeat state beat) = read state)
    (hflags : ∀ (state : ArpState) outStageEn arpCacheInvalidateCount outSendArpReqStdby,
      read { state with outStageEn, arpCacheInvalidateCount, outSendArpReqStdby } = read state)
    (state : ArpState) (accept ppsEn : Bool) :
    read (ppsStage (sendStage addresses (flushed state accept)) ppsEn) = read state := by
  have hpps : ∀ state, read (ppsStage state ppsEn) = read state := by
    intro state
    unfold ppsStage
    split_ifs
    · exact hflags state _ _ true
    · exact hflags state _ _ _
    · rfl
  calc read (ppsStage (sendStage addresses (flushed state accept)) ppsEn)
      = read (sendStage addresses (flushed state accept)) := hpps _
    _ = read (flushed state accept) := sendStage_keeps addresses read hplace _
    _ = read state := hflags state _ _ _

theorem staged_sendStage (state : ArpState) :
    (sendStage addresses state).staged = state.staged ++ placed addresses state := by
  rcases sendStage_cases addresses state with ⟨hstate, hnone⟩ | ⟨-, hfree, beat, hstate, hbeat⟩
  · rw [hstate, hnone, List.append_nil]
  · simp [hstate, hbeat, ArpState.staged, hfree, placeBeat]

/-- The sender's position in its frame is the same. -/
structure SamePosition (before after : ArpState) : Prop where
  mode : after.outSendMode = before.outSendMode
  idx : after.outSendIdx = before.outSendIdx
  staged : after.staged = before.staged

/-- What is stored for the reply is the same. -/
structure SameReply (before after : ArpState) : Prop where
  rpyMac : after.rpyMac = before.rpyMac
  rpyIp : after.rpyIp = before.rpyIp
  stdby : after.outSendArpRpyStdby = before.outSendArpRpyStdby

theorem SamePosition.trans {first second third : ArpState} (hfirst : SamePosition first second)
    (hsecond : SamePosition second third) : SamePosition first third :=
  ⟨hsecond.mode.trans hfirst.mode, hsecond.idx.trans hfirst.idx,
    hsecond.staged.trans hfirst.staged⟩

theorem SameReply.trans {first second third : ArpState} (hfirst : SameReply first second)
    (hsecond : SameReply second third) : SameReply first third :=
  ⟨hsecond.rpyMac.trans hfirst.rpyMac, hsecond.rpyIp.trans hfirst.rpyIp,
    hsecond.stdby.trans hfirst.stdby⟩

/-- The sections before the dispatch have no part in the reply. -/
theorem ppsStage_reply (state : ArpState) (accept ppsEn : Bool) :
    SameReply state (ppsStage (sendStage addresses (flushed state accept)) ppsEn) where
  rpyMac := ppsStage_keeps addresses ArpState.rpyMac (fun _ _ => rfl) (fun _ _ _ _ => rfl) _ _ _
  rpyIp := ppsStage_keeps addresses ArpState.rpyIp (fun _ _ => rfl) (fun _ _ _ _ => rfl) _ _ _
  stdby := ppsStage_keeps addresses ArpState.outSendArpRpyStdby (fun _ _ => rfl)
    (fun _ _ _ _ => rfl) _ _ _

theorem ppsStage_position (state : ArpState) (ppsEn : Bool) :
    SamePosition state (ppsStage state ppsEn) := by
  unfold ppsStage
  split_ifs <;> exact ⟨rfl, rfl, rfl⟩

theorem dispatch_position (state : ArpState) (recv : Received) :
    SamePosition state (dispatch addresses state recv) := by
  unfold dispatch
  split_ifs <;> exact ⟨rfl, rfl, rfl⟩

theorem inputStage_position (state : ArpState) :
    SamePosition state (inputStage addresses state) := by
  cases hstage0 : state.inStage0 with
  | none =>
      simp only [inputStage, hstage0]
      exact ⟨rfl, rfl, rfl⟩
  | some inStage0 =>
      have hdispatch := dispatch_position addresses state
        (received state.inStage3 state.inStage2 state.inStage1 inStage0)
      simp only [inputStage, hstage0]
      split_ifs
      · exact ⟨hdispatch.mode, hdispatch.idx, hdispatch.staged⟩
      · exact ⟨rfl, rfl, rfl⟩

/-- An accepted request is stored for the reply. -/
theorem inputStage_of_accepted {state : ArpState} {request : Received}
    (haccepted : accepted addresses state = some request) :
    (inputStage addresses state).rpyMac = request.srcMac ∧
      (inputStage addresses state).rpyIp = request.srcIp ∧
      (inputStage addresses state).outSendArpRpyStdby = true := by
  cases hstage0 : state.inStage0 with
  | none => simp [accepted, hstage0] at haccepted
  | some inStage0 =>
      simp only [accepted, hstage0, Option.ite_none_right_eq_some, Option.some.injEq]
        at haccepted
      obtain ⟨⟨hsop, hop, hown, hfree⟩, rfl⟩ := haccepted
      simp [inputStage, hstage0, hsop, dispatch, hop, hown, hfree, pushStages]

/-- Nothing else changes what is stored for the reply. -/
theorem inputStage_of_not_accepted {state : ArpState}
    (haccepted : accepted addresses state = none) :
    SameReply state (inputStage addresses state) := by
  cases hstage0 : state.inStage0 with
  | none =>
      simp only [inputStage, hstage0]
      exact ⟨rfl, rfl, rfl⟩
  | some inStage0 =>
      simp only [accepted, hstage0, ite_eq_right_iff, reduceCtorEq, imp_false] at haccepted
      simp only [inputStage, hstage0, pushStages, dispatch]
      split_ifs with hsop hop hown
      · exact absurd ⟨hsop, hop, hown⟩ haccepted
      all_goals exact ⟨rfl, rfl, rfl⟩

/-- The sections before the dispatch have no part in what is accepted. -/
theorem accepted_ppsStage (state : ArpState) (accept ppsEn : Bool) :
    accepted addresses (ppsStage (sendStage addresses (flushed state accept)) ppsEn) =
      accepted addresses state :=
  ppsStage_keeps addresses (accepted addresses) (fun _ _ => rfl) (fun _ _ _ _ => rfl) _ _ _

/-! ## Between the output stage and `out_send_mode` control -/

section BeforeControl

variable (config : Config) (call : Call)

theorem beforeControl_position :
    SamePosition (sendStage addresses (flushed config.state call.accept))
      (config.beforeControl addresses call) :=
  (ppsStage_position _ _).trans (inputStage_position addresses _)

theorem beforeControl_of_accepted {request : Received}
    (haccepted : accepted addresses config.state = some request) :
    (config.beforeControl addresses call).rpyMac = request.srcMac ∧
      (config.beforeControl addresses call).rpyIp = request.srcIp ∧
      (config.beforeControl addresses call).outSendArpRpyStdby = true :=
  inputStage_of_accepted addresses ((accepted_ppsStage addresses _ _ _).trans haccepted)

theorem beforeControl_of_not_accepted (haccepted : accepted addresses config.state = none) :
    SameReply config.state (config.beforeControl addresses call) := by
  apply (ppsStage_reply addresses config.state call.accept (config.ppsEn call)).trans
  apply inputStage_of_not_accepted addresses
  rw [accepted_ppsStage, haccepted]

end BeforeControl

/-! ## Framing -/

/-- The mode in which a frame is sent. -/
def Frame.mode : Frame → OutSendMode
  | .request => .arpRequest
  | .reply _ => .arpReply

/-- Six beats are sent of every frame but the newest, and of that as many as
`out_send_idx` says. -/
structure Sending (part : Frame → Nat → Beat → Prop) (frames : List Frame) (state : ArpState)
    (sent : List Beat) : Prop where
  framed : FramedAs 6 part frames sent
  idle : state.outSendMode = .idle → sent.length = 6 * frames.length
  busy : state.outSendMode ≠ .idle → ∃ frame, frames.getLast? = some frame ∧
    frame.mode = state.outSendMode ∧ state.outSendIdx.toNat ≤ 5 ∧
    sent.length + 6 = 6 * frames.length + state.outSendIdx.toNat

namespace Sending

variable {part : Frame → Nat → Beat → Prop} {frames : List Frame} {state after : ArpState}
  {sent : List Beat} (hsending : Sending part frames state sent)
include hsending

theorem mono {other : Frame → Nat → Beat → Prop}
    (hother : ∀ frame offset beat, part frame offset beat → other frame offset beat) :
    Sending other frames state sent :=
  ⟨hsending.framed.mono hother, hsending.idle, hsending.busy⟩

theorem same_position (hafter : SamePosition state after) : Sending part frames after sent :=
  ⟨hsending.framed, by rw [hafter.mode]; exact hsending.idle,
    by rw [hafter.mode, hafter.idx]; exact hsending.busy⟩

/-- A placed beat continues the newest frame. -/
theorem placeBeat {beat : Beat} {frame : Frame} (hbusy : state.outSendMode ≠ .idle)
    (hframe : frames.getLast? = some frame) (hpart : part frame state.outSendIdx.toNat beat) :
    Sending part frames (placeBeat state beat) (sent ++ [beat]) := by
  obtain ⟨_, hnewest, hmode, hidx, hlength⟩ := hsending.busy hbusy
  obtain rfl := Option.some.inj (hframe.symm.trans hnewest)
  have hne : frames ≠ [] := by
    rintro rfl
    simp at hframe
  have hpositive := List.length_pos_iff.mpr hne
  have hdiv : sent.length / 6 = frames.length - 1 := by omega
  have hmod : sent.length % 6 = state.outSendIdx.toNat := by omega
  have hlast : state.outSendIdx = 5#8 ↔ state.outSendIdx.toNat = 5 := by
    rw [← BitVec.toNat_inj, BitVec.toNat_ofNat]
  have hnext : frames[sent.length / 6]? = some frame := by
    rw [hdiv, ← List.getLast?_eq_getElem?, hframe]
  refine ⟨hsending.framed.push_item hnext (by rwa [hmod]), ?_, ?_⟩
  · intro hidle
    have hend : state.outSendIdx.toNat = 5 := by
      by_contra hmore
      exact hbusy (by simpa [ArpProc.placeBeat, hlast, hmore] using hidle)
    rw [List.length_append, List.length_singleton]
    omega
  · intro hopen
    have hmore : state.outSendIdx.toNat ≠ 5 := fun hend =>
      hopen (by simp [ArpProc.placeBeat, hlast, hend])
    have hnext : (state.outSendIdx + 1#8).toNat = state.outSendIdx.toNat + 1 := by
      rw [BitVec.toNat_add, BitVec.toNat_ofNat]
      omega
    refine ⟨frame, hframe, ?_, ?_, ?_⟩
    · simpa [ArpProc.placeBeat, hlast, hmore] using hmode
    · simp only [ArpProc.placeBeat, hnext]
      omega
    · simp only [ArpProc.placeBeat, hnext, List.length_append, List.length_singleton]
      omega

/-- The send sequences continue the newest frame. -/
theorem sendStage
    (hpart : ∀ frame, frames.getLast? = some frame → frame.mode = state.outSendMode →
      state.outSendIdx.toNat ≤ 5 → ∀ beat ∈ placed addresses state,
        part frame state.outSendIdx.toNat beat) :
    Sending part frames (sendStage addresses state) (sent ++ placed addresses state) := by
  rcases sendStage_cases addresses state with ⟨hstate, hnone⟩ | ⟨hbusy, -, beat, hstate, hbeat⟩
  · rwa [hstate, hnone, List.append_nil]
  · obtain ⟨frame, hframe, hmode, hidx, -⟩ := hsending.busy hbusy
    rw [hstate, hbeat]
    refine hsending.placeBeat hbusy hframe (hpart frame hframe hmode hidx beat ?_)
    rw [hbeat]
    exact List.mem_singleton_self beat

/-- `out_send_mode` control starts a frame behind complete ones. -/
theorem modeControl (requests : List Received)
    (hpending : state.outSendArpRpyStdby = true → requests ≠ []) :
    Sending part (frames ++ started state requests) (modeControl state) sent := by
  cases hmode : state.outSendMode with
  | arpRequest => simpa [ArpProc.modeControl, started, hmode] using hsending
  | arpReply => simpa [ArpProc.modeControl, started, hmode] using hsending
  | idle =>
      have hlength := hsending.idle hmode
      refine ⟨hsending.framed.push_frames _, ?_, ?_⟩
      all_goals
        simp only [ArpProc.modeControl, started, hmode, if_true]
        split_ifs with hreply hrequest
      · simp
      · simp
      · simpa using fun _ => hlength
      · obtain ⟨request, rest, rfl⟩ := List.exists_cons_of_ne_nil (hpending hreply)
        refine fun _ => ⟨.reply request, by simp, rfl, by simp, ?_⟩
        simp only [List.length_append]
        simp
        omega
      · refine fun _ => ⟨.request, by simp, rfl, by simp, ?_⟩
        simp
        omega
      · simp [hmode]

end Sending

/-! ## One call -/

variable (config : Config) (call : Call)

theorem staged_modeControl (state : ArpState) : (modeControl state).staged = state.staged := by
  unfold modeControl
  split_ifs <;> rfl

theorem step_state :
    SamePosition (modeControl (config.beforeControl addresses call))
        (step addresses config call).state ∧
      SameReply (modeControl (config.beforeControl addresses call))
        (step addresses config call).state := by
  simp only [step, arpProc, outputStage_eq]
  exact ⟨⟨rfl, rfl, rfl⟩, ⟨rfl, rfl, rfl⟩⟩

theorem step_requests :
    (step addresses config call).requests =
      (accepted addresses config.state).toList ++ config.requests := rfl

theorem step_frames :
    (step addresses config call).frames = config.frames ++
      started (config.beforeControl addresses call) (step addresses config call).requests := rfl

/-- A call sends the beat it places. -/
theorem step_sent :
    (step addresses config call).sent =
      config.sent ++ placed addresses (flushed config.state call.accept) := by
  have hflush : (step addresses config call).output ++ (flushed config.state call.accept).staged =
      config.sent := by
    simp only [step, arpProc, outputStage_eq, Config.sent, ArpState.staged, flushed]
    rcases config with ⟨⟨outStage, outStageEn⟩, input, pps, output⟩
    cases outStageEn <;> cases call.accept <;> simp
  rw [Config.sent, (step_state addresses config call).1.staged, staged_modeControl,
    (beforeControl_position addresses config call).staged, staged_sendStage,
    ← List.append_assoc, hflush]

/-- A call keeps the framing when the beat it places is a part of the newest frame. -/
theorem step_sending {part : Frame → Nat → Beat → Prop}
    (hsending : Sending part config.frames config.state config.sent)
    (hpart : ∀ frame, config.frames.getLast? = some frame →
      frame.mode = config.state.outSendMode → config.state.outSendIdx.toNat ≤ 5 →
      ∀ beat ∈ placed addresses (flushed config.state call.accept),
        part frame config.state.outSendIdx.toNat beat)
    (hpending : (config.beforeControl addresses call).outSendArpRpyStdby = true →
      (step addresses config call).requests ≠ []) :
    Sending part (step addresses config call).frames (step addresses config call).state
      (step addresses config call).sent := by
  have hflushed : Sending part config.frames (flushed config.state call.accept) config.sent :=
    ⟨hsending.framed, hsending.idle, hsending.busy⟩
  have hplaced := hflushed.sendStage addresses hpart
  have hbefore := hplaced.same_position (beforeControl_position addresses config call)
  have hcontrol := Sending.modeControl hbefore (step addresses config call).requests hpending
  rw [step_frames, step_sent]
  exact hcontrol.same_position (step_state addresses config call).1

end IcmpServer.ArpProc
