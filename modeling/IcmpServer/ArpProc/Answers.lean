import IcmpServer.ArpProc.Evaluations

/-! # The reply to a request

The reply to an accepted request takes the next place among the frames. It is made
of that request in all its beats when no other request for `OWN_IP` is evaluated
before it is complete.
-/

namespace IcmpServer.ArpProc

open Elastic

variable (addresses : Addresses)

/-- The reply to the request has the place: until it is complete, it is pending or
the newest frame, and the request is the newest one. -/
structure Answering (request : Received) (place : Nat) (config : Config) : Prop where
  accounted : Accounted addresses config
  beats : ∀ offset < 6, ∀ beat, config.sent[6 * place + offset]? = some beat →
    beat = replyBeat addresses request offset
  newest : config.sent.length < 6 * (place + 1) → config.requests.head? = some request ∧
    (config.frames.length = place ∧ config.state.outSendArpRpyStdby = true ∨
      config.frames.length = place + 1)
  logged : ∀ frame, config.frames[place]? = some frame → frame = .reply request

/-- No request for `OWN_IP` is evaluated before the frame at the place has been
written. -/
def Quiet (place : Nat) (config : Config) (_call : Call) : Prop :=
  config.output.length < 6 * (place + 1) →
    ∀ recv ∈ evaluated config.state, ¬ recv.ForOwnIp addresses

instance (place : Nat) (config : Config) (call : Call) :
    Decidable (Quiet addresses place config call) :=
  inferInstanceAs (Decidable (config.output.length < 6 * (place + 1) →
    ∀ recv ∈ evaluated config.state, ¬ recv.ForOwnIp addresses))

/-- The newest frame is incomplete at most. -/
theorem Sending.length_bounds {part : Frame → Nat → Beat → Prop} {frames : List Frame}
    {state : ArpState} {sent : List Beat} (hsending : Sending part frames state sent) :
    sent.length ≤ 6 * frames.length ∧ 6 * frames.length ≤ sent.length + 6 := by
  by_cases hidle : state.outSendMode = .idle
  · have hlength := hsending.idle hidle
    omega
  · obtain ⟨_, -, -, hidx, hlength⟩ := hsending.busy hidle
    omega

theorem length_placed_le (state : ArpState) : (placed addresses state).length ≤ 1 := by
  rcases sendStage_cases addresses state with ⟨-, hnone⟩ | ⟨-, -, beat, -, hbeat⟩
  · simp [hnone]
  · simp [hbeat]

variable {addresses} {config : Config} {call : Call} {request : Received} {place : Nat}

/-- The beat placed in a call belongs to a frame started before. -/
theorem step_sent_length_le (haccounted : Accounted addresses config) :
    (step addresses config call).sent.length ≤ 6 * config.frames.length := by
  rw [step_sent, List.length_append]
  rcases sendStage_cases addresses (flushed config.state call.accept) with
    ⟨-, hnone⟩ | ⟨hbusy, -, beat, -, hbeat⟩
  · rw [hnone]
    exact haccounted.sending.length_bounds.1
  · obtain ⟨_, -, -, hidx, hlength⟩ := haccounted.sending.busy hbusy
    rw [hbeat, List.length_singleton]
    omega

/-- A pending reply is started for the newest request when the sender is idle. -/
theorem step_pending (haccounted : Accounted addresses config)
    (hnewest : (step addresses config call).requests.head? = some request)
    (hstdby : (config.beforeControl addresses call).outSendArpRpyStdby = true) :
    Answering addresses request config.frames.length (step addresses config call) := by
  have hlength : (step addresses config call).sent.length ≤ 6 * config.frames.length :=
    step_sent_length_le haccounted
  obtain ⟨-, hreply⟩ := step_state addresses config call
  have hstarted : started (config.beforeControl addresses call)
      (step addresses config call).requests =
        if (config.beforeControl addresses call).outSendMode = .idle then [.reply request]
        else [] := by
    rw [started, if_pos hstdby, hnewest]
    rfl
  refine ⟨step_accounted addresses config call haccounted, ?_, ?_, ?_⟩
  · intro offset _ beat hbeat
    rw [List.getElem?_eq_none (by omega)] at hbeat
    contradiction
  · refine fun _ => ⟨hnewest, ?_⟩
    rw [step_frames, hstarted, hreply.stdby, modeControl]
    split_ifs with hidle
    · exact Or.inr (by simp)
    · exact Or.inl ⟨by simp, hstdby⟩
  · intro frame hframe
    rw [step_frames, hstarted, List.getElem?_append_right (Nat.le_refl _), Nat.sub_self] at hframe
    split_ifs at hframe
    · exact (Option.some.inj hframe).symm
    · contradiction

/-- An accepted request is answered in the next frame. -/
theorem step_accepts (haccounted : Accounted addresses config)
    (haccepted : accepted addresses config.state = some request) :
    Answering addresses request config.frames.length (step addresses config call) := by
  apply step_pending haccounted
  · rw [step_requests, haccepted]
    rfl
  · exact (beforeControl_of_accepted addresses config call haccepted).2.2

namespace Answering

variable (hanswering : Answering addresses request place config)
include hanswering

/-- A complete reply stays as it is. -/
theorem step_complete (hcomplete : 6 * (place + 1) ≤ config.sent.length) :
    Answering addresses request place (step addresses config call) := by
  have hplace : place < config.frames.length := by
    have hlength := hanswering.accounted.sending.length_bounds.1
    omega
  refine ⟨step_accounted addresses config call hanswering.accounted, ?_, ?_, ?_⟩
  · intro offset hoffset beat hbeat
    rw [step_sent, List.getElem?_append_left (by omega)] at hbeat
    exact hanswering.beats offset hoffset beat hbeat
  · intro hopen
    rw [step_sent, List.length_append] at hopen
    omega
  · intro frame hframe
    rw [step_frames, List.getElem?_append_left hplace] at hframe
    exact hanswering.logged frame hframe

theorem getElem?_frames (hinside : place < config.frames.length) :
    config.frames[place]? = some (.reply request) := by
  rw [List.getElem?_eq_getElem hinside]
  exact congrArg some (hanswering.logged _ (List.getElem?_eq_getElem hinside))

/-- A beat placed into the open reply is its next one, and the registers hold the request. -/
theorem placed_beat (hopen : config.sent.length < 6 * (place + 1))
    (hstarted : config.frames.length = place + 1) {offset : Nat} {beat : Beat}
    (hplace : config.sent.length ≤ 6 * place + offset)
    (hbeat : (placed addresses (flushed config.state call.accept))[6 * place + offset -
      config.sent.length]? = some beat) : beat = replyBeat addresses request offset := by
  have hsending := hanswering.accounted.sending
  have hbusy : config.state.outSendMode ≠ .idle := by
    intro hidle
    have hlength := hsending.idle hidle
    omega
  obtain ⟨frame, hlast, hmode, hidx, hlength⟩ := hsending.busy hbusy
  rw [List.getLast?_eq_getElem?, hstarted, Nat.add_sub_cancel,
    hanswering.getElem?_frames (by omega)] at hlast
  obtain rfl := Option.some.inj hlast
  have hplaced := placed_eq addresses (flushed config.state call.accept) hmode hidx
    (List.mem_of_getElem? hbeat)
  obtain ⟨hmac, hip⟩ := hanswering.accounted.stored.newest request (hanswering.newest hopen).1
  have hfirst := (List.getElem?_eq_some_iff.mp hbeat).1
  have hsingle := length_placed_le addresses (flushed config.state call.accept)
  have hoffset : config.state.outSendIdx.toNat = offset := by omega
  rw [replyBeat, ← hmac, ← hip, ← hoffset]
  exact hplaced

/-- The open reply is continued with a beat of the request. -/
theorem step_open (hopen : config.sent.length < 6 * (place + 1))
    (hstarted : config.frames.length = place + 1)
    (hquiet : accepted addresses config.state = none) :
    Answering addresses request place (step addresses config call) := by
  have hstep := step_accounted addresses config call hanswering.accounted
  have hrequests : (step addresses config call).requests = config.requests := by
    rw [step_requests, hquiet]
    rfl
  refine ⟨hstep, ?_, ?_, ?_⟩
  · intro offset hoffset beat hbeat
    rw [step_sent, List.getElem?_append] at hbeat
    split_ifs at hbeat with hbefore
    · exact hanswering.beats offset hoffset beat hbeat
    · exact hanswering.placed_beat hopen hstarted (Nat.le_of_not_lt hbefore) hbeat
  · intro hmore
    rw [hrequests]
    refine ⟨(hanswering.newest hopen).1, Or.inr ?_⟩
    have hlength := hstep.sending.length_bounds.2
    rw [step_frames, List.length_append] at hlength ⊢
    omega
  · intro frame hother
    rw [step_frames, List.getElem?_append_left (by omega),
      hanswering.getElem?_frames (by omega)] at hother
    exact (Option.some.inj hother).symm

end Answering

theorem step_answering (hanswering : Answering addresses request place config)
    (hquiet : Quiet addresses place config call) :
    Answering addresses request place (step addresses config call) := by
  rcases Nat.lt_or_ge config.sent.length (6 * (place + 1)) with hopen | hcomplete
  · have hlength : config.output.length ≤ config.sent.length := by simp [Config.sent]
    have hnone : accepted addresses config.state = none := by
      rw [accepted_eq, Option.filter_eq_none_iff]
      intro recv hrecv
      simp [hquiet (by omega) recv hrecv]
    obtain ⟨hnewest, hpending | hstarted⟩ := hanswering.newest hopen
    · rw [← hpending.1]
      apply step_pending hanswering.accounted
      · rw [step_requests, hnone]
        exact hnewest
      · rw [(beforeControl_of_not_accepted addresses config call hnone).stdby]
        exact hpending.2
    · exact hanswering.step_open hopen hstarted hnone
  · exact hanswering.step_complete hcomplete

/-- The beats written at the place are those of the reply to the request. -/
theorem Answering.written (hanswering : Answering addresses request place config)
    (hcomplete : 6 * (place + 1) ≤ config.output.length) :
    config.frames[place]? = some (.reply request) ∧
      (config.output.drop (6 * place)).take 6 =
        (List.range 6).map (replyBeat addresses request) := by
  constructor
  · have hlength := hanswering.accounted.sending.length_bounds.1
    rw [Config.sent, List.length_append] at hlength
    exact hanswering.getElem?_frames (by omega)
  · apply List.ext_getElem
    · rw [List.length_take, List.length_drop, List.length_map, List.length_range]
      omega
    · intro offset hoffset hsix
      have hinside : 6 * place + offset < config.output.length := by
        rw [List.length_map, List.length_range] at hsix
        omega
      rw [List.getElem_take, List.getElem_drop, List.getElem_map, List.getElem_range]
      apply hanswering.beats offset (by simpa using hsix)
      rw [Config.sent, List.getElem?_append_left hinside, List.getElem?_eq_getElem hinside]

/-- The reply to an accepted request is written with the request's beats at the place
of the next frame. -/
theorem run_answers (input : List Beat) (pps : List (BitVec 8)) (before later : List Call)
    (call : Call)
    (haccepted : accepted addresses (run addresses (start input pps) before).state = some request)
    (hplace : (run addresses (start input pps) before).frames.length = place)
    (hquiet : Along (step addresses) (Quiet addresses place)
      (run addresses (start input pps) (before ++ [call])) later) :
    Answering addresses request place
      (run addresses (start input pps) (before ++ call :: later)) := by
  have hbefore := run_accounted addresses before _ (start_accounted addresses input pps)
  have haccepts : Answering addresses request _ (step addresses _ call) :=
    step_accepts hbefore haccepted
  rw [hplace] at haccepts
  simp only [run, List.foldl_append, List.foldl_cons, List.foldl_nil] at haccepts hquiet ⊢
  exact hquiet.invariant (fun config call hconfig hcall => step_answering hconfig hcall) haccepts

end IcmpServer.ArpProc
