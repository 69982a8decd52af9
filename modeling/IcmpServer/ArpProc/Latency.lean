import IcmpServer.ArpProc.Answers
import Mathlib.Data.List.Induction

/-! # How long a request waits

An accepted request waits for the rest of the frame under way, and its reply then
goes out beat by beat: thirteen calls whose write is not refused are enough, whatever
arrives meanwhile.
-/

namespace IcmpServer.ArpProc

open Elastic

variable {addresses : Addresses} {config : Config} {call : Call} {place : Nat}
  {request : Received}

/-- The place is that of the reply to the request, started or pending behind a frame under
way. -/
structure Due (request : Received) (place : Nat) (config : Config) : Prop where
  reached : place ≤ config.frames.length
  pending : config.frames.length = place → config.requests.head? = some request ∧
    config.state.outSendArpRpyStdby = true ∧ config.state.outSendMode ≠ .idle
  logged : ∀ frame, config.frames[place]? = some frame → frame = .reply request

/-- The place behind the frames is taken by a pending reply. -/
theorem step_due_of_pending (haccounted : Accounted addresses config)
    (hnewest : (step addresses config call).requests.head? = some request)
    (hstdby : (config.beforeControl addresses call).outSendArpRpyStdby = true) :
    Due request config.frames.length (step addresses config call) := by
  have hanswering := step_pending haccounted hnewest hstdby
  obtain ⟨hposition, hreply⟩ := step_state addresses config call
  refine ⟨?_, ?_, hanswering.logged⟩
  · rw [step_frames, List.length_append]
    exact Nat.le_add_right _ _
  · intro hsame
    have hbusy : (config.beforeControl addresses call).outSendMode ≠ .idle := by
      intro hidle
      rw [step_frames, List.length_append, started, if_pos hidle, if_pos hstdby, hnewest] at hsame
      simp at hsame
    rw [hreply.stdby, hposition.mode, modeControl, if_neg hbusy]
    exact ⟨hnewest, hstdby, hbusy⟩

/-- While the reply is pending no other request is accepted. -/
theorem step_due (haccounted : Accounted addresses config) (hdue : Due request place config) :
    Due request place (step addresses config call) := by
  rcases Nat.eq_or_lt_of_le hdue.reached with rfl | hstarted
  · obtain ⟨hnewest, hstdby, -⟩ := hdue.pending rfl
    have hnone : accepted addresses config.state = none := by
      rw [accepted_eq, Option.filter_eq_none_iff]
      simp [hstdby]
    apply step_due_of_pending haccounted
    · rw [step_requests, hnone]
      exact hnewest
    · rw [(beforeControl_of_not_accepted addresses config call hnone).stdby]
      exact hstdby
  · have hframes : place < (step addresses config call).frames.length := by
      rw [step_frames, List.length_append]
      omega
    refine ⟨Nat.le_of_lt hframes, fun hsame => absurd hsame (Nat.ne_of_gt hframes), ?_⟩
    intro frame hframe
    rw [step_frames, List.getElem?_append_left hstarted] at hframe
    exact hdue.logged frame hframe

/-- Until the reply is complete the sender has a frame under way. -/
theorem Due.busy (hdue : Due request place config) (haccounted : Accounted addresses config)
    (hopen : config.sent.length < 6 * (place + 1)) : config.state.outSendMode ≠ .idle := by
  rcases Nat.eq_or_lt_of_le hdue.reached with hsame | hstarted
  · exact (hdue.pending hsame.symm).2.2
  · intro hidle
    have hlength := haccounted.sending.idle hidle
    omega

/-- A call whose write is not refused writes what had been sent and, while a frame is
under way, sends a beat. -/
theorem step_accepting (haccept : call.accept = true) :
    (step addresses config call).output = config.sent ∧
      (config.state.outSendMode ≠ .idle →
        (step addresses config call).sent.length = config.sent.length + 1) := by
  constructor
  · simp only [step, arpProc, outputStage_eq, Config.sent, ArpState.staged, haccept, Bool.and_true]
  · intro hbusy
    have hfree : (flushed config.state call.accept).outStageEn = false := by
      simp [flushed, haccept]
    have hplaced : (placed addresses (flushed config.state call.accept)).length = 1 := by
      rw [placed, hfree]
      cases hmode : config.state.outSendMode <;> simp [flushed, hmode] at hbusy ⊢
    rw [step_sent, List.length_append, hplaced]

theorem step_output_le :
    config.output.length ≤ (step addresses config call).output.length ∧
      config.sent.length ≤ (step addresses config call).sent.length := by
  constructor
  · simp [step, arpProc, outputStage_eq]
  · rw [step_sent, List.length_append]
    exact Nat.le_add_right _ _

/-- Each such call brings the reply a beat closer to its end. -/
theorem run_due (haccounted : Accounted addresses config) (hdue : Due request place config)
    (schedule : List Call) :
    Due request place (run addresses config schedule) ∧
      min (6 * (place + 1)) (config.sent.length + schedule.countP Call.accept) ≤
        (run addresses config schedule).sent.length ∧
      min (6 * (place + 1) + 1) (config.sent.length + schedule.countP Call.accept) ≤
        (run addresses config schedule).output.length + 1 := by
  induction schedule using List.reverseRecOn with
  | nil =>
      have hstaged : config.sent.length ≤ config.output.length + 1 := by
        rw [Config.sent, ArpState.staged, List.length_append]
        split_ifs <;> simp
      refine ⟨hdue, ?_, ?_⟩
      · exact Nat.min_le_right _ _
      · exact (Nat.min_le_right _ _).trans hstaged
  | append_singleton schedule call ih =>
      obtain ⟨hreached, hsent, houtput⟩ := ih
      have hconfig := run_accounted addresses schedule config haccounted
      have hrun : run addresses config (schedule ++ [call]) =
          step addresses (run addresses config schedule) call := List.foldl_append
      rw [hrun, List.countP_append, List.countP_singleton]
      refine ⟨step_due hconfig hreached, ?_⟩
      generalize run addresses config schedule = reached at hconfig hreached hsent houtput ⊢
      have hgrows : reached.output.length ≤ (step addresses reached call).output.length ∧
          reached.sent.length ≤ (step addresses reached call).sent.length := step_output_le
      cases haccept : call.accept with
      | false =>
          simp only [Bool.false_eq_true, if_false, Nat.add_zero]
          omega
      | true =>
          obtain ⟨hwritten, hplaces⟩ := @step_accepting addresses reached call haccept
          rw [hwritten]
          simp only [if_true]
          rcases Nat.lt_or_ge reached.sent.length (6 * (place + 1)) with hopen | hcomplete
          · have hplaced := hplaces (hreached.busy hconfig hopen)
            omega
          · omega

variable (addresses) in
/-- The reply to an accepted request is the next frame to start, and it is complete after
thirteen calls whose write is not refused: six for the rest of a frame under way, six to
place the reply and one to write its last beat. All of it is made of that request when no
other is evaluated meanwhile. -/
theorem arpProc_answers_within (input : List Beat) (pps : List (BitVec 8))
    (before later : List Call) (call : Call) (request : Received)
    (haccepted : accepted addresses (run addresses (start input pps) before).state = some request)
    (hcalls : 13 ≤ later.countP Call.accept) :
    let place := (run addresses (start input pps) before).frames.length
    let config := run addresses (start input pps) (before ++ call :: later)
    6 * (place + 1) ≤ config.output.length ∧
      config.frames[place]? = some (.reply request) ∧
      (Along (step addresses) (Quiet addresses place)
          (run addresses (start input pps) (before ++ [call])) later →
        (config.output.drop (6 * place)).take 6 =
          (List.range 6).map (replyBeat addresses request)) := by
  intro place config
  have hbefore := run_accounted addresses before _ (start_accounted addresses input pps)
  have hconfig : config = run addresses
      (step addresses (run addresses (start input pps) before) call) later := List.foldl_append
  have hdue : Due request place
      (step addresses (run addresses (start input pps) before) call) := by
    apply step_due_of_pending hbefore
    · rw [step_requests, haccepted]
      rfl
    · exact (beforeControl_of_accepted addresses _ call haccepted).2.2
  obtain ⟨hlater, -, hwritten⟩ := run_due (step_accounted addresses _ call hbefore) hdue later
  have haccounted := run_accounted addresses later _ (step_accounted addresses _ call hbefore)
  rw [← hconfig] at hlater hwritten haccounted
  -- the frame under way was incomplete at most
  have hstarted := hbefore.sending.length_bounds.2
  have hgrows := (@step_output_le addresses (run addresses (start input pps) before) call).2
  have hcomplete : 6 * (place + 1) ≤ config.output.length := by
    change 6 * place ≤ _ at hstarted
    omega
  refine ⟨hcomplete, ?_, ?_⟩
  · have hbounds := haccounted.sending.length_bounds.1
    rw [Config.sent, List.length_append] at hbounds
    have hinside : place < config.frames.length := by omega
    have hframe := List.getElem?_eq_getElem hinside
    rw [hframe, hlater.logged _ hframe]
  · intro hquiet
    exact ((run_answers input pps before later call haccepted rfl hquiet).written hcomplete).2

/-- A request comes while a request frame for the gateway is under way, and every second
write is refused. -/
theorem arpProc_answers_within_test :
    let input := requestPkt 0x060000000001#48 0xc0a80205#32
    let before := List.replicate 6 served
    let later := (List.replicate 13 [served, ⟨true, true, false⟩]).flatten
    let place := (run .default (start input [0#8]) before).frames.length
    let config := run .default (start input [0#8]) (before ++ served :: later)
    let request : Received := ⟨0x01#8, 0x060000000001#48, 0xc0a80205#32, 0xc0a80264#32⟩
    place = 1 ∧ 6 * (place + 1) ≤ config.output.length ∧
      config.frames[place]? = some (.reply request) ∧
      (config.output.drop (6 * place)).take 6 =
        (List.range 6).map (replyBeat .default request) := by
  intro input before later place config request
  have hquiet : Along (step .default) (Quiet .default place)
      (run .default (start input [0#8]) (before ++ [served])) later := by
    decide +kernel
  obtain ⟨hcomplete, hlogged, hwritten⟩ := arpProc_answers_within .default input [0#8] before
    later served request (by decide) (by decide)
  exact ⟨by decide, hcomplete, hlogged, hwritten hquiet⟩

end IcmpServer.ArpProc
