import IcmpServer.ArpProc.Pacing

/-! # No frame without an occasion

Every frame that is started has an occasion of its own: a reply a packet that was
received, a request a PPS pulse. What is still to come and what has been started
never add up to more than the occasions there were at the beginning.
-/

namespace IcmpServer.ArpProc

open Elastic

variable (addresses : Addresses)

/-- The occasions left, and those already taken: requests accepted and request frames
started or pending. -/
def Config.occasions (config : Config) : Nat :=
  (shown (config.state.window ++ config.input)).length + config.pps.length +
    config.requests.length + config.frames.countP Frame.isRequest +
    config.state.outSendArpReqStdby.toNat

theorem accepted_le_evaluated (state : ArpState) :
    (accepted addresses state).toList.length ≤ (evaluated state).toList.length := by
  rw [accepted_eq]
  cases evaluated state with
  | none => exact Nat.le_refl _
  | some recv => exact Option.length_toList_le

/-- A PPS pulse that is read is gone. -/
theorem step_pps (config : Config) (call : Call) :
    (step addresses config call).pps.length + (config.ppsEn call).toNat = config.pps.length := by
  have hread := congrArg List.length
    (⟨config.pps, call.deliverPps⟩ : StreamIn (BitVec 8)).tryRead_append
  have hpps : (step addresses config call).pps =
      (⟨config.pps, call.deliverPps⟩ : StreamIn (BitVec 8)).tryRead.2.queue := rfl
  rw [List.length_append] at hread
  rw [hpps, Config.ppsEn, ← hread, Nat.add_comm]
  cases (⟨config.pps, call.deliverPps⟩ : StreamIn (BitVec 8)).tryRead.1 <;> rfl

/-- A request is raised by a pulse. -/
theorem raised_le (config : Config) (call : Call) :
    (tick addresses config call).raised.toNat ≤ (config.ppsEn call).toNat := by
  rw [tick, (beforeControl_cache addresses config call).2]
  cases config.state.outSendArpReqStdby <;> cases config.ppsEn call <;> simp [Bool.toNat_le]

theorem step_occasions (config : Config) (call : Call) :
    (step addresses config call).occasions ≤ config.occasions := by
  have hshown := congrArg List.length (step_shown addresses config call)
  have haccepted := accepted_le_evaluated addresses config.state
  have hrequest := step_request addresses config call
  have hpps := step_pps addresses config call
  have hraised := raised_le addresses config call
  have hrequests := congrArg List.length (step_requests addresses config call)
  rw [List.length_append] at hshown hrequests
  simp only [Config.occasions]
  omega

theorem run_occasions (schedule : List Call) (config : Config) :
    (run addresses config schedule).occasions ≤ config.occasions := by
  induction schedule generalizing config with
  | nil => exact Nat.le_refl _
  | cons call rest ih =>
      exact (ih (step addresses config call)).trans (step_occasions addresses config call)

/-- Of the frames started each has its occasion. -/
theorem frames_le_occasions {config : Config} (hanswered : Answered config) :
    config.frames.length ≤ config.occasions := by
  have hsplit := List.length_eq_countP_add_countP Frame.isReply (l := config.frames)
  rw [Answered, ← List.countP_eq_length_filter] at hanswered
  have hrequests : config.frames.countP Frame.isRequest =
      config.frames.countP fun frame => decide ¬frame.isReply = true := by
    apply List.countP_congr
    intro frame _
    simp [Frame.isRequest]
  rw [Config.occasions]
  omega

/-- The window shows at most one packet for each mark. -/
theorem shown_length_le (stream : List Beat) :
    (shown stream).length ≤ stream.countP Beat.first := by
  induction stream with
  | nil => exact Nat.le_refl _
  | cons beat rest ih =>
      rw [shown, List.length_append, List.countP_cons]
      split_ifs with hfirst
      · have hpacket := (packetReceived (beat :: rest)).length_toList_le
        omega
      · simpa using ih

/-- Frames are started for packets marked at their first beat and for pulses. -/
theorem run_frames_le (input : List Beat) (pps : List (BitVec 8)) (schedule : List Call) :
    (run addresses (start input pps) schedule).frames.length ≤
      input.countP Beat.first + pps.length := by
  have hanswered := run_answered addresses schedule (start input pps) (start_stored input pps) rfl
  have hoccasions := run_occasions addresses schedule (start input pps)
  have hshown := shown_length_le input
  have hframes := frames_le_occasions hanswered
  have hstart : (start input pps).occasions = (shown input).length + pps.length := by
    rw [← shown_idle input]
    rfl
  omega

/-! ## Requests for `OWN_IP` -/

/-- What the beginning of a stream shows the stream shows. -/
theorem shown_append_sublist (front rest : List Beat) :
    (shown front).Sublist (shown (front ++ rest)) := by
  induction front with
  | nil => exact List.nil_sublist _
  | cons beat front ih =>
      rw [List.cons_append, shown, shown]
      refine List.Sublist.append ?_ ih
      rcases Nat.lt_or_ge (beat :: front).length 6 with hshort | hlength
      · simp [packetReceived_of_short hshort]
      · rw [← List.cons_append, packetReceived_append hlength]

/-- Whatever the input, a request accepted is one for `OWN_IP` that the window has shown. -/
theorem run_requests_shown (schedule : List Call) (config : Config) :
    ∀ request ∈ (run addresses config schedule).requests, request ∈ config.requests ∨
      request ∈ shown (config.state.window ++ config.input) ∧ request.ForOwnIp addresses := by
  induction schedule generalizing config with
  | nil => exact fun request hrequest => Or.inl hrequest
  | cons call rest ih =>
      intro request hrequest
      have hshown := step_shown addresses config call
      rcases ih (step addresses config call) request hrequest with hbefore | ⟨hlater, hown⟩
      · rw [step_requests, List.mem_append, Option.mem_toList, accepted_eq,
          Option.filter_eq_some_iff] at hbefore
        refine hbefore.symm.imp_right fun ⟨hevaluated, hown⟩ => ?_
        rw [← hshown, hevaluated]
        exact ⟨List.mem_cons_self, (of_decide_eq_true hown).1⟩
      · rw [← hshown]
        exact Or.inr ⟨List.mem_append_right _ hlater, hown⟩

/-- Requests for `OWN_IP` that a stream shows. -/
def forOwnIp (stream : List Beat) : Nat :=
  (shown stream).countP fun recv => decide (recv.ForOwnIp addresses)

theorem forOwnIp_mono {front whole : List Beat} (hfront : front <+: whole) :
    forOwnIp addresses front ≤ forOwnIp addresses whole := by
  obtain ⟨rest, rfl⟩ := hfront
  exact (shown_append_sublist front rest).countP_le

/-- Those that the window has not shown yet. -/
def Config.unread (config : Config) : Nat :=
  forOwnIp addresses (config.state.window ++ config.input)

theorem step_unread (config : Config) (call : Call) :
    (evaluated config.state).toList.countP (fun recv => decide (recv.ForOwnIp addresses)) +
      (step addresses config call).unread addresses = config.unread addresses := by
  rw [Config.unread, Config.unread, forOwnIp, forOwnIp, ← step_shown addresses config call,
    List.countP_append]

/-- No request is accepted twice. -/
theorem step_requests_le (config : Config) (call : Call) :
    (step addresses config call).requests.length + (step addresses config call).unread addresses ≤
      config.requests.length + config.unread addresses := by
  have hunread := step_unread addresses config call
  have haccepted : (accepted addresses config.state).toList.length ≤
      (evaluated config.state).toList.countP fun recv => decide (recv.ForOwnIp addresses) := by
    rw [accepted_eq]
    cases evaluated config.state with
    | none => exact Nat.le_refl _
    | some recv => by_cases hown : recv.ForOwnIp addresses <;> simp [hown, Option.filter]
  rw [step_requests, List.length_append]
  omega

theorem run_requests_le (schedule : List Call) (config : Config) :
    (run addresses config schedule).requests.length +
        (run addresses config schedule).unread addresses ≤
      config.requests.length + config.unread addresses := by
  induction schedule generalizing config with
  | nil => exact Nat.le_refl _
  | cons call rest ih =>
      exact (ih (step addresses config call)).trans (step_requests_le addresses config call)

/-- The first request that is shown is accepted: no reply is pending yet. -/
theorem step_first {config : Config} {call : Call} (hanswered : Answered config)
    (hnone : (step addresses config call).requests = []) :
    config.requests = [] ∧
      (step addresses config call).unread addresses = config.unread addresses := by
  rw [step_requests, List.append_eq_nil_iff] at hnone
  obtain ⟨haccepted, hbefore⟩ := hnone
  have hidle : config.state.outSendArpRpyStdby = false := by
    rw [Answered, hbefore, List.length_nil] at hanswered
    exact Bool.toNat_eq_zero.mp (by omega)
  have hunread := step_unread addresses config call
  rw [accepted_eq, hidle] at haccepted
  cases hevaluated : evaluated config.state with
  | none =>
      rw [hevaluated] at hunread
      exact ⟨hbefore, (Nat.zero_add _).symm.trans hunread⟩
  | some recv =>
      have hother : ¬ recv.ForOwnIp addresses := by
        intro hown
        simp [hevaluated, hown, Option.filter] at haccepted
      rw [hevaluated] at hunread
      simp only [Option.toList_some, List.countP_singleton, hother, decide_false,
        Bool.false_eq_true, if_false, Nat.zero_add] at hunread
      exact ⟨hbefore, hunread⟩

/-- As long as no request is accepted, none has been shown. -/
theorem run_first (schedule : List Call) (config : Config) (hstored : Stored config)
    (hanswered : Answered config) (hnone : (run addresses config schedule).requests = []) :
    config.requests = [] ∧
      (run addresses config schedule).unread addresses = config.unread addresses := by
  induction schedule generalizing config with
  | nil => exact ⟨hnone, rfl⟩
  | cons call rest ih =>
      obtain ⟨hlater, hrest⟩ := ih (step addresses config call)
        (step_stored addresses config call hstored)
        (step_answered addresses config call hstored hanswered) hnone
      obtain ⟨hbefore, hfirst⟩ := step_first addresses hanswered hlater
      exact ⟨hbefore, hrest.trans hfirst⟩

/-- What is accepted of an input, and of what it shows. -/
theorem run_requests (input : List Beat) (pps : List (BitVec 8)) (schedule : List Call) :
    let config := run addresses (start input pps) schedule
    config.requests.length + config.unread addresses ≤ forOwnIp addresses input ∧
      (config.requests = [] → config.unread addresses = forOwnIp addresses input) := by
  have hstart : (start input pps).unread addresses = forOwnIp addresses input := by
    rw [forOwnIp, ← shown_idle input]
    rfl
  have hlength := run_requests_le addresses schedule (start input pps)
  rw [hstart] at hlength
  refine ⟨hlength.trans (Nat.le_of_eq (Nat.zero_add _)), fun hnone => ?_⟩
  rw [← hstart]
  exact (run_first addresses schedule (start input pps) (start_stored input pps) rfl hnone).2

end IcmpServer.ArpProc
