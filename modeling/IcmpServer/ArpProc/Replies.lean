import IcmpServer.ArpProc.Sending
import Mathlib.Tactic.IntervalCases

/-! # What replies are made of

`rpy_mac` and `rpy_ip` hold the sender of the request accepted last. A beat of a
reply is made of whatever they hold when it is placed.
-/

namespace IcmpServer.ArpProc

open Elastic

variable (addresses : Addresses)

/-! ## Beats by position -/

/-- Beat `offset` of a request frame. -/
def requestBeat (offset : Nat) : Beat :=
  arpRequest addresses (BitVec.ofNat 8 offset) zeroBeat

/-- Beat `offset` of a reply frame for a request. -/
def replyBeat (request : Received) (offset : Nat) : Beat :=
  arpReply addresses request.srcMac request.srcIp (BitVec.ofNat 8 offset) zeroBeat

/-- Within a frame the output register is replaced as a whole. -/
theorem sendSequence_eq (mac : BitVec 48) (op : BitVec 64) (ip : BitVec 32) (outSendIdx : BitVec 8)
    (outStage : Beat) (hidx : outSendIdx.toNat ≤ 5) :
    sendSequence addresses mac op ip outSendIdx outStage =
      sendSequence addresses mac op ip (BitVec.ofNat 8 outSendIdx.toNat) zeroBeat := by
  rw [BitVec.ofNat_toNat, BitVec.setWidth_eq]
  simp only [sendSequence]
  generalize outSendIdx.toNat = offset at hidx
  interval_cases offset <;> rfl

/-- The MAC address is used up to beat 4, and of the IP address the lower half. -/
theorem sendSequence_congr {mac mac' : BitVec 48} (op : BitVec 64) {ip ip' : BitVec 32}
    (outSendIdx : BitVec 8) (outStage : Beat) (hidx : outSendIdx.toNat ≤ 5)
    (hmac : outSendIdx.toNat ≤ 4 → mac = mac') (hip : ip.setWidth 16 = ip'.setWidth 16) :
    sendSequence addresses mac op ip outSendIdx outStage =
      sendSequence addresses mac' op ip' outSendIdx outStage := by
  have hlow : ∀ ip : BitVec 32, ip.setWidth 64 <<< 48 = (ip.setWidth 16).setWidth 64 <<< 48 := by
    intro ip
    apply BitVec.eq_of_getLsbD_eq
    intro bit hbit
    simp only [BitVec.getLsbD_shiftLeft, BitVec.getLsbD_setWidth]
    grind
  simp only [sendSequence]
  generalize outSendIdx.toNat = offset at hidx hmac
  by_cases hlast : offset = 5
  · subst hlast
    simp only [hlow ip, hlow ip', hip]
  · obtain rfl := hmac (by omega)
    interval_cases offset <;> simp at hlast ⊢

/-! ## The registers of the reply -/

/-- The registers hold the newest request while one is pending or answered. -/
structure Stored (config : Config) : Prop where
  newest : ∀ request, config.requests.head? = some request →
    config.state.rpyMac = request.srcMac ∧ config.state.rpyIp = request.srcIp
  pending : config.state.outSendArpRpyStdby = true ∨ config.state.outSendMode = .arpReply →
    config.requests ≠ []

theorem modeControl_reply (state : ArpState) :
    (modeControl state).rpyMac = state.rpyMac ∧ (modeControl state).rpyIp = state.rpyIp ∧
      ((modeControl state).outSendArpRpyStdby = true ∨
          (modeControl state).outSendMode = .arpReply →
        state.outSendArpRpyStdby = true ∨ state.outSendMode = .arpReply) := by
  unfold modeControl
  split_ifs with hidle hreply hrequest
  · exact ⟨rfl, rfl, fun _ => Or.inl hreply⟩
  · exact ⟨rfl, rfl, fun hpending => Or.inl (by simpa using hpending)⟩
  · exact ⟨rfl, rfl, id⟩
  · exact ⟨rfl, rfl, id⟩

/-- The send sequences keep the mode or end it. -/
theorem sendStage_mode (state : ArpState)
    (hbusy : (sendStage addresses state).outSendMode ≠ .idle) :
    (sendStage addresses state).outSendMode = state.outSendMode := by
  rcases sendStage_cases addresses state with ⟨hstate, -⟩ | ⟨-, -, beat, hstate, -⟩
  · rw [hstate]
  · rw [hstate] at hbusy ⊢
    simp only [placeBeat] at hbusy ⊢
    split_ifs at hbusy ⊢
    · exact absurd rfl hbusy
    · rfl

variable (config : Config) (call : Call)

theorem beforeControl_mode (hbusy : (config.beforeControl addresses call).outSendMode ≠ .idle) :
    (config.beforeControl addresses call).outSendMode = config.state.outSendMode := by
  have hposition := beforeControl_position addresses config call
  rw [hposition.mode] at hbusy ⊢
  exact sendStage_mode addresses _ hbusy

/-- Before `out_send_mode` control the registers hold the newest request. -/
theorem beforeControl_stored (hstored : Stored config) :
    (∀ request, (step addresses config call).requests.head? = some request →
      (config.beforeControl addresses call).rpyMac = request.srcMac ∧
        (config.beforeControl addresses call).rpyIp = request.srcIp) ∧
      ((config.beforeControl addresses call).outSendArpRpyStdby = true ∨
          (config.beforeControl addresses call).outSendMode = .arpReply →
        (step addresses config call).requests ≠ []) := by
  rw [step_requests]
  cases haccepted : accepted addresses config.state with
  | some request =>
      have hstore := beforeControl_of_accepted addresses config call haccepted
      refine ⟨?_, fun _ => by simp⟩
      intro newest hnewest
      obtain rfl : request = newest := by simpa using hnewest
      exact ⟨hstore.1, hstore.2.1⟩
  | none =>
      have hsame := beforeControl_of_not_accepted addresses config call haccepted
      constructor
      · intro newest hnewest
        obtain ⟨hmac, hip⟩ := hstored.newest newest hnewest
        exact ⟨hsame.rpyMac.trans hmac, hsame.rpyIp.trans hip⟩
      · intro hpending
        refine hstored.pending (hpending.imp ?_ ?_)
        · intro hstdby
          rwa [hsame.stdby] at hstdby
        · intro hreply
          rw [← beforeControl_mode addresses config call (by simp [hreply]), hreply]

theorem step_stored (hstored : Stored config) : Stored (step addresses config call) := by
  obtain ⟨hnewest, hpending⟩ := beforeControl_stored addresses config call hstored
  obtain ⟨hmac, hip, hcontrol⟩ := modeControl_reply (config.beforeControl addresses call)
  obtain ⟨hposition, hreply⟩ := step_state addresses config call
  refine ⟨?_, fun hbusy => hpending (hcontrol ?_)⟩
  · intro request hrequest
    rw [hreply.rpyMac, hreply.rpyIp, hmac, hip]
    exact hnewest request hrequest
  · rwa [hreply.stdby, hposition.mode] at hbusy

theorem start_stored (input : List Beat) (pps : List (BitVec 8)) : Stored (start input pps) :=
  ⟨by simp [start], by simp [start, ArpState.init]⟩

/-! ## What a beat of a frame can be -/

/-- A beat of a reply is made of some accepted request. -/
def emits (requests : List Received) : Frame → Nat → Beat → Prop
  | .request, offset, beat => beat = requestBeat addresses offset
  | .reply _, offset, beat => ∃ request ∈ requests, beat = replyBeat addresses request offset

/-- The beat placed while a frame is open. -/
theorem placed_eq (state : ArpState) {frame : Frame} (hmode : frame.mode = state.outSendMode)
    (hidx : state.outSendIdx.toNat ≤ 5) {beat : Beat} (hbeat : beat ∈ placed addresses state) :
    match frame with
    | .request => beat = requestBeat addresses state.outSendIdx.toNat
    | .reply _ => beat = arpReply addresses state.rpyMac state.rpyIp
        (BitVec.ofNat 8 state.outSendIdx.toNat) zeroBeat := by
  cases hen : state.outStageEn with
  | true => simp [placed, hen] at hbeat
  | false =>
      cases frame with
      | request =>
          obtain rfl : beat = _ := by simpa [placed, hen, ← hmode, Frame.mode] using hbeat
          exact sendSequence_eq addresses _ _ _ _ _ hidx
      | reply request =>
          obtain rfl : beat = _ := by simpa [placed, hen, ← hmode, Frame.mode] using hbeat
          exact sendSequence_eq addresses _ _ _ _ _ hidx

/-- What holds of every configuration reached. -/
structure Accounted (config : Config) : Prop where
  stored : Stored config
  sending : Sending (emits addresses config.requests) config.frames config.state config.sent

theorem start_accounted (input : List Beat) (pps : List (BitVec 8)) :
    Accounted addresses (start input pps) :=
  ⟨start_stored input pps, FramedAs.nil, fun _ => rfl, fun hbusy => absurd rfl hbusy⟩

theorem step_accounted (hconfig : Accounted addresses config) :
    Accounted addresses (step addresses config call) := by
  obtain ⟨hstored, hsending⟩ := hconfig
  have hpending := (beforeControl_stored addresses config call hstored).2
  refine ⟨step_stored addresses config call hstored, ?_⟩
  refine step_sending addresses config call (hsending.mono ?_)
    ?_ fun hstdby => hpending (Or.inl hstdby)
  · intro frame offset beat hemits
    cases frame with
    | request => exact hemits
    | reply request =>
        obtain ⟨source, hmem, rfl⟩ := hemits
        exact ⟨source, List.mem_append_right _ hmem, rfl⟩
  · intro frame hframe hmode hidx beat hbeat
    have hplaced := placed_eq addresses (flushed config.state call.accept) hmode hidx hbeat
    cases frame with
    | request => exact hplaced
    | reply request =>
        have hne := hstored.pending (Or.inr hmode.symm)
        obtain ⟨newest, rest, hrequests⟩ := List.exists_cons_of_ne_nil hne
        obtain ⟨hmac, hip⟩ := hstored.newest newest (by rw [hrequests, List.head?_cons])
        refine ⟨newest, by simp [step_requests, hrequests], ?_⟩
        rw [replyBeat, ← hmac, ← hip]
        exact hplaced

theorem run_accounted (schedule : List Call) (config : Config)
    (hconfig : Accounted addresses config) : Accounted addresses (run addresses config schedule) :=
  foldl_invariant (fun config call => step_accounted addresses config call) schedule _ hconfig

end IcmpServer.ArpProc
