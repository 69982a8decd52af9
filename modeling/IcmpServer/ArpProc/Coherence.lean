import IcmpServer.ArpProc.Receiving
import IcmpServer.ArpProc.Replies

/-! # Coherent replies

`out_send_arp_rpy_stdby` protects `rpy_mac` and `rpy_ip` only until the reply is
started. A request accepted while the reply is being sent replaces them, and the
beats placed from then on are made of the new request. Replies are coherent in
runs in which no such request differs in a field still to be placed.
-/

namespace IcmpServer.ArpProc

open Elastic

variable (addresses : Addresses)

/-! ## Coherence -/

/-- `dst mac` of beat 0 and of beat 4. -/
def macField (beat : Beat) : BitVec 48 :=
  beat.data.extractLsb' 16 48

/-- The operation in beat 2. -/
def opField (beat : Beat) : BitVec 16 :=
  beat.data.extractLsb' 16 16

/-- The low half of `dst ip` in beat 5. -/
def ipField (beat : Beat) : BitVec 16 :=
  beat.data.extractLsb' 48 16

/-- `01 for req, 02 for ack`. -/
def Frame.op : Frame → BitVec 16
  | .request => 0x0001#16
  | .reply _ => 0x0002#16

/-- Every beat written belongs to a logged frame, and every reply has all its
fields from the request that led to it. -/
structure Coherent (packets : List (List Beat)) (config : Config) : Prop where
  frames : ∀ index beat, config.output[index]? = some beat →
    ∃ frame, config.frames[index / 6]? = some frame ∧ (index % 6 = 2 → opField beat = frame.op)
  requests : ∀ request, Frame.reply request ∈ config.frames →
    ∃ packet ∈ packets, IsRequest addresses packet request
  fields : ∀ index request, config.frames[index]? = some (.reply request) → ∀ beat,
    (config.output[6 * index]? = some beat → macField beat = request.srcMac) ∧
    (config.output[6 * index + 4]? = some beat → macField beat = request.srcMac) ∧
    (config.output[6 * index + 5]? = some beat → ipField beat = request.srcIp.setWidth 16)

/-- Every beat is the right one of its frame. -/
def coherent : Frame → Nat → Beat → Prop
  | .request, offset, beat => beat = requestBeat addresses offset
  | .reply request, offset, beat => beat = replyBeat addresses request offset

theorem macField_replyBeat (request : Received) :
    macField (replyBeat addresses request 0) = request.srcMac ∧
      macField (replyBeat addresses request 4) = request.srcMac := by
  constructor <;>
  · apply BitVec.eq_of_getLsbD_eq
    intro bit hbit
    simp [macField, replyBeat, arpReply, sendSequence, orData, arpData]
    grind

/-- Beat 5 carries the low half of an address in its first two bytes. -/
theorem ipField_orData (ip : BitVec 32) :
    ipField (orData (arpData addresses 5) (ip.setWidth 64 <<< 48 &&& 0xffff000000000000#64)) =
      ip.setWidth 16 := by
  apply BitVec.eq_of_getLsbD_eq
  intro bit hbit
  have hmask : BitVec.getLsbD 0xffff000000000000#64 (48 + bit) = true := by
    interval_cases bit <;> rfl
  have hwide : 48 + bit < 64 := by omega
  simp [ipField, orData, arpData, hbit, hmask, hwide]

/-- The constant part of beat 2 leaves the operation to the send sequence. -/
theorem opField_orData (op : BitVec 64) :
    opField (orData (arpData addresses 2) op) = op.extractLsb' 16 16 := by
  apply BitVec.eq_of_getLsbD_eq
  intro bit hbit
  have hbyte : ∀ byte : BitVec 8,
      byte.getLsbD (16 + bit) = false ∧ byte.getLsbD (16 + bit - 8) = false :=
    fun byte => ⟨byte.getLsbD_of_ge _ (by omega), byte.getLsbD_of_ge _ (by omega)⟩
  have hbase : BitVec.getLsbD 0x0800060400000000#64 (16 + bit) = false := by
    interval_cases bit <;> rfl
  simp [opField, orData, arpData, hbyte, hbase]

theorem opField_of_coherent {frame : Frame} {beat : Beat}
    (hbeat : coherent addresses frame 2 beat) : opField beat = frame.op := by
  cases frame with
  | request =>
      obtain rfl : beat = requestBeat addresses 2 := hbeat
      exact opField_orData addresses _
  | reply request =>
      obtain rfl : beat = replyBeat addresses request 2 := hbeat
      exact opField_orData addresses _

/-! ## Runs without disturbance -/

/-- How many beats of the open frame are placed when a call comes to its dispatch
flow. -/
def reached (state : ArpState) (accept : Bool) : Nat :=
  if state.outStageEn && !accept then state.outSendIdx.toNat else state.outSendIdx.toNat + 1

/-- A request accepted while a reply is being sent agrees with it in the fields
still to be placed. -/
def Undisturbed (config : Config) (call : Call) : Prop :=
  config.state.outSendMode = .arpReply → ∀ request ∈ accepted addresses config.state,
    (reached config.state call.accept ≤ 4 → request.srcMac = config.state.rpyMac) ∧
    (reached config.state call.accept ≤ 5 →
      request.srcIp.setWidth 16 = config.state.rpyIp.setWidth 16)

instance (config : Config) (call : Call) : Decidable (Undisturbed addresses config call) :=
  inferInstanceAs (Decidable (config.state.outSendMode = .arpReply →
    ∀ request ∈ accepted addresses config.state, _ ∧ _))

/-- What holds of every configuration reached without disturbance. -/
structure Promised (config : Config) : Prop where
  stored : Stored config
  sending : Sending (coherent addresses) config.frames config.state config.sent
  /-- The registers still agree with the request of the open reply. -/
  held : config.state.outSendMode = .arpReply →
    ∀ request, config.frames.getLast? = some (.reply request) →
      (config.state.outSendIdx.toNat ≤ 4 → config.state.rpyMac = request.srcMac) ∧
      config.state.rpyIp.setWidth 16 = request.srcIp.setWidth 16

/-- The send sequences count the beat they place. -/
theorem idx_sendStage (state : ArpState) (accept : Bool)
    (hbusy : (sendStage addresses (flushed state accept)).outSendMode ≠ .idle)
    (hidx : state.outSendIdx.toNat ≤ 5) :
    (sendStage addresses (flushed state accept)).outSendIdx.toNat = reached state accept ∧
      reached state accept ≤ 5 := by
  have hnext : (state.outSendIdx + 1#8).toNat = state.outSendIdx.toNat + 1 := by
    rw [BitVec.toNat_add, BitVec.toNat_ofNat]
    omega
  have hlast : state.outSendIdx.toNat = 5 → state.outSendIdx = 5#8 := fun hend => by
    rw [← BitVec.toNat_inj, hend, BitVec.toNat_ofNat]
  cases hblocked : (state.outStageEn && !accept) with
  | true =>
      have hstate : sendStage addresses (flushed state accept) = flushed state accept :=
        if_pos hblocked
      rw [hstate, reached, hblocked, if_pos rfl]
      exact ⟨rfl, hidx⟩
  | false =>
      rw [reached, hblocked, if_neg Bool.false_ne_true]
      rcases sendStage_cases addresses (flushed state accept) with
        ⟨hstate, hnone⟩ | ⟨-, -, beat, hstate, -⟩
      · rw [hstate] at hbusy
        cases hmode : state.outSendMode <;>
          simp [placed, flushed, hblocked, hmode] at hnone hbusy
      · rw [hstate] at hbusy ⊢
        have hmore : state.outSendIdx.toNat ≠ 5 := fun hend => by
          simp [placeBeat, flushed, hlast hend] at hbusy
        exact ⟨hnext, by omega⟩

variable {addresses} {config : Config} {call : Call}

theorem start_promised (input : List Beat) (pps : List (BitVec 8)) :
    Promised addresses (start input pps) :=
  ⟨start_stored input pps, ⟨FramedAs.nil, fun _ => rfl, fun hbusy => absurd rfl hbusy⟩,
    fun hreply => by simp [start, ArpState.init] at hreply⟩

/-- A reply under way is continued from the registers it was started with. -/
theorem Promised.held_before (hconfig : Promised addresses config)
    (hcall : Undisturbed addresses config call)
    (hreply : (config.beforeControl addresses call).outSendMode = .arpReply)
    {request : Received} (hnewest : config.frames.getLast? = some (.reply request)) :
    ((config.beforeControl addresses call).outSendIdx.toNat ≤ 4 →
        (config.beforeControl addresses call).rpyMac = request.srcMac) ∧
      (config.beforeControl addresses call).rpyIp.setWidth 16 = request.srcIp.setWidth 16 := by
  have hbusy : (config.beforeControl addresses call).outSendMode ≠ .idle := by simp [hreply]
  have hbefore : config.state.outSendMode = .arpReply := by
    rw [← beforeControl_mode addresses config call hbusy, hreply]
  obtain ⟨_, -, -, hidx, -⟩ := hconfig.sending.busy (by simp [hbefore])
  obtain ⟨hmac, hip⟩ := hconfig.held hbefore request hnewest
  have hposition := beforeControl_position addresses config call
  obtain ⟨hreached, hmore⟩ := idx_sendStage addresses config.state call.accept
    (by rw [← hposition.mode]; exact hbusy) hidx
  have hlater : config.state.outSendIdx.toNat ≤ reached config.state call.accept := by
    unfold reached
    split_ifs <;> omega
  rw [hposition.idx, hreached]
  -- without a new request the registers stay, with one they agree where it matters
  cases haccepted : accepted addresses config.state with
  | none =>
      have hsame := beforeControl_of_not_accepted addresses config call haccepted
      rw [hsame.rpyMac, hsame.rpyIp]
      exact ⟨fun hearly => hmac (by omega), hip⟩
  | some other =>
      have hstore := beforeControl_of_accepted addresses config call haccepted
      obtain ⟨hsameMac, hsameIp⟩ := hcall hbefore other haccepted
      rw [hstore.1, hstore.2.1]
      exact ⟨fun hearly => (hsameMac hearly).trans (hmac (by omega)), (hsameIp hmore).trans hip⟩

theorem step_promised (hconfig : Promised addresses config)
    (hcall : Undisturbed addresses config call) :
    Promised addresses (step addresses config call) := by
  obtain ⟨hregisters, hpending⟩ := beforeControl_stored addresses config call hconfig.stored
  obtain ⟨hposition, hsame⟩ := step_state addresses config call
  obtain ⟨hmac, hip, -⟩ := modeControl_reply (config.beforeControl addresses call)
  refine ⟨step_stored addresses config call hconfig.stored, ?_, ?_⟩
  · refine step_sending addresses config call hconfig.sending
      ?_ fun hstdby => hpending (Or.inl hstdby)
    intro frame hframe hmode hidx beat hbeat
    have hplaced := placed_eq addresses (flushed config.state call.accept) hmode hidx hbeat
    cases frame with
    | request => exact hplaced
    | reply request =>
        obtain ⟨hheldMac, hheldIp⟩ := hconfig.held hmode.symm request hframe
        refine hplaced.trans (sendSequence_congr addresses _ _ _ ?_ ?_ hheldIp)
        all_goals
          rw [BitVec.ofNat_toNat, BitVec.setWidth_eq]
        · exact hidx
        · exact hheldMac
  · intro hreply request hnewest
    rw [hsame.rpyMac, hsame.rpyIp, hposition.idx, hmac, hip]
    rw [hposition.mode] at hreply
    rw [step_frames] at hnewest
    by_cases hidle : (config.beforeControl addresses call).outSendMode = .idle
    · -- the reply starts now, for the request that the registers hold
      have hstdby : (config.beforeControl addresses call).outSendArpRpyStdby = true := by
        by_contra hnone
        cases hrequest : (config.beforeControl addresses call).outSendArpReqStdby <;>
          simp [modeControl, hidle, hnone, hrequest] at hreply
      obtain ⟨newest, rest, hrequests⟩ := List.exists_cons_of_ne_nil (hpending (Or.inl hstdby))
      obtain rfl : newest = request := by
        simpa [started, hidle, hstdby, hrequests] using hnewest
      obtain ⟨hnewestMac, hnewestIp⟩ := hregisters newest (by rw [hrequests, List.head?_cons])
      exact ⟨fun _ => hnewestMac, congrArg (BitVec.setWidth 16) hnewestIp⟩
    · have hkept : modeControl (config.beforeControl addresses call) =
          config.beforeControl addresses call := if_neg hidle
      rw [hkept] at hreply ⊢
      rw [started, if_neg hidle, List.append_nil] at hnewest
      exact hconfig.held_before hcall hreply hnewest

/-- Undisturbed runs send what they promise. -/
theorem Promised.coherent {packets : List (List Beat)} (hconfig : Promised addresses config)
    (hrequests : ∀ request, Frame.reply request ∈ config.frames →
      ∃ packet ∈ packets, IsRequest addresses packet request) :
    Coherent addresses packets config := by
  have hframed := hconfig.sending.framed.of_isPrefix (List.prefix_append config.output _)
  refine ⟨?_, hrequests, ?_⟩
  · intro index beat hbeat
    obtain ⟨frame, hframe, hpart⟩ := hframed index beat hbeat
    exact ⟨frame, hframe, fun hoffset => opField_of_coherent addresses (hoffset ▸ hpart)⟩
  · intro index request hframe beat
    have hpart : ∀ offset < 6, config.output[6 * index + offset]? = some beat →
        beat = replyBeat addresses request offset := by
      intro offset hoffset hbeat
      have hplace : (6 * index + offset) / 6 = index := by omega
      have hslot : (6 * index + offset) % 6 = offset := by omega
      obtain ⟨frame, hsame, hpart⟩ := hframed _ beat hbeat
      rw [hplace, hframe] at hsame
      obtain rfl := Option.some.inj hsame
      rwa [hslot] at hpart
    refine ⟨?_, ?_, ?_⟩
    · intro hbeat
      rw [hpart 0 (by decide) hbeat]
      exact (macField_replyBeat addresses request).1
    · intro hbeat
      rw [hpart 4 (by decide) hbeat]
      exact (macField_replyBeat addresses request).2
    · intro hbeat
      rw [hpart 5 (by decide) hbeat]
      exact ipField_orData addresses request.srcIp

/-! ## The guarantee -/

/-- In runs without disturbance every reply is coherent. -/
theorem arpProc_coherent (addresses : Addresses) (packets : List (List Beat))
    (hpackets : ∀ packet ∈ packets, SixBeats packet) (pps : List (BitVec 8))
    (schedule : List Call)
    (hschedule : Along (step addresses) (Undisturbed addresses) (start packets.flatten pps)
      schedule) :
    Coherent addresses packets (run addresses (start packets.flatten pps) schedule) := by
  have hprovenance := run_provenance addresses hpackets pps schedule
  refine (hschedule.invariant (fun config call hconfig hcall => step_promised hconfig hcall)
    (start_promised packets.flatten pps)).coherent ?_
  intro request hframe
  exact hprovenance.requests request (hprovenance.logged request hframe)

/-! ## Two requests in a row -/

/-- A request for 192.168.2.100. -/
def requestPkt (srcMac : BitVec 48) (srcIp : BitVec 32) : List Beat :=
  [⟨0xffffffffffff#48 ++ srcMac.extractLsb' 32 16, 1#8, 0#8, 0#8⟩,
    ⟨srcMac.extractLsb' 0 32 ++ 0x08060001#32, 0#8, 0#8, 0#8⟩,
    ⟨0x080006040001#48 ++ srcMac.extractLsb' 32 16, 0#8, 0#8, 0#8⟩,
    ⟨srcMac.extractLsb' 0 32 ++ srcIp, 0#8, 0#8, 0#8⟩,
    ⟨0xffffffffffff#48 ++ 0xc0a8#16, 0#8, 0#8, 0#8⟩,
    ⟨0x0264#16 ++ 0#48, 0#8, 1#8, 6#8⟩]

def twoRequests : List (List Beat) :=
  [requestPkt 0x060000000001#48 0xc0a80205#32, requestPkt 0x060000000002#48 0xc0a80206#32]

/-- A call in which every stream is served. -/
def served : Call := ⟨true, true, true⟩

theorem arpProc_coherent_twoRequests :
    (∀ packet ∈ twoRequests, SixBeats packet) ∧
      Along (step .default) (Undisturbed .default) (start twoRequests.flatten [])
        (List.replicate 30 served) ∧
      Coherent .default twoRequests
        (run .default (start twoRequests.flatten []) (List.replicate 30 served)) := by
  have hpackets : ∀ packet ∈ twoRequests, SixBeats packet := by decide
  have hserved : Along (step .default) (Undisturbed .default) (start twoRequests.flatten [])
      (List.replicate 30 served) := by decide
  exact ⟨hpackets, hserved, arpProc_coherent .default twoRequests hpackets [] _ hserved⟩

/-- All calls served but the eleventh, in which the write is refused. -/
def oneRefusal : List Call :=
  List.replicate 10 served ++ ⟨true, true, false⟩ :: List.replicate 10 served

/-- The second request arrives before beat 5 of the first reply is placed: the
reply to the first goes out with the address of the second. -/
theorem arpProc_incoherent_oneRefusal :
    (∀ packet ∈ twoRequests, SixBeats packet) ∧
      ¬ Coherent .default twoRequests
        (run .default (start twoRequests.flatten []) oneRefusal) := by
  refine ⟨by decide, ?_⟩
  intro hcoherent
  have hfield := (hcoherent.fields 0
    ⟨0x01#8, 0x060000000001#48, 0xc0a80205#32, 0xc0a80264#32⟩ (by decide)
    ⟨0x0206000000000000#64, 0#8, 1#8, 6#8⟩).2.2 (by decide)
  revert hfield
  decide

end IcmpServer.ArpProc
