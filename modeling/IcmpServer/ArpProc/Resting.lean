import IcmpServer.ArpProc.Occasions
import IcmpServer.ArpProc.Replies

/-! # Coming to rest

When nothing more arrives `arp_proc` sends what is pending and comes to rest. Every
section of a call trades what it takes for less: a beat read for a beat processed, a
packet or a pulse for a pending frame, a pending frame for its beats.
-/

namespace IcmpServer.ArpProc

open Elastic

variable (addresses : Addresses)

/-! ## What is left to do -/

/-- A beat of the frame under way is placed and then written. -/
def ArpState.sendWork (state : ArpState) : Nat :=
  if state.outSendMode = .idle then 0 else 2 * (6 - state.outSendIdx.toNat)

/-- A pending frame has more work in front of it than one just started. -/
def ArpState.work (state : ArpState) : Nat :=
  state.outStageEn.toNat + state.sendWork +
    13 * (state.outSendArpRpyStdby.toNat + state.outSendArpReqStdby.toNat)

/-- A pulse or a beat may lead to a pending frame. -/
def Config.work (config : Config) : Nat :=
  config.state.work + 14 * (config.pps.length + occupied config.state.inStage0) +
    15 * config.input.length

/-- `out_send_mode` control starts a frame. -/
def ArpState.starts (state : ArpState) : Bool :=
  decide (state.outSendMode = .idle) && (state.outSendArpRpyStdby || state.outSendArpReqStdby)

/-! ## Sections -/

theorem flushed_work (state : ArpState) (accept : Bool) :
    (flushed state accept).work + (state.outStageEn && accept).toNat = state.work := by
  have hsend : (flushed state accept).sendWork = state.sendWork := rfl
  rw [ArpState.work, ArpState.work, hsend]
  simp only [flushed]
  cases state.outStageEn <;> cases accept <;> simp
  omega

/-- Placing a beat is work done. -/
theorem sendStage_work (state : ArpState)
    (hidx : state.outSendMode ≠ .idle → state.outSendIdx.toNat ≤ 5) :
    (sendStage addresses state).work + (placed addresses state).length ≤ state.work := by
  rcases sendStage_cases addresses state with ⟨hsame, hnone⟩ | ⟨hbusy, hfree, beat, hplace, hbeat⟩
  · rw [hsame, hnone]
    exact Nat.le_refl _
  · have hbound := hidx hbusy
    rw [hplace, hbeat]
    simp only [ArpState.work, ArpState.sendWork, placeBeat, hfree, List.length_singleton]
    by_cases hfinal : state.outSendIdx = 5#8
    · have hfive : (5#8).toNat = 5 := rfl
      simp only [hfinal, if_true, hbusy, if_false, Bool.toNat_true, Bool.toNat_false, hfive]
      omega
    · have hnext : (state.outSendIdx + 1#8).toNat = state.outSendIdx.toNat + 1 := by
        rw [BitVec.toNat_add]
        exact Nat.mod_eq_of_lt (by simp; omega)
      have hless : state.outSendIdx.toNat ≠ 5 := fun h => hfinal (BitVec.eq_of_toNat_eq h)
      simp only [hfinal, if_false, hbusy, hnext, Bool.toNat_true, Bool.toNat_false]
      omega

theorem ppsStage_work (state : ArpState) (ppsEn : Bool) :
    (ppsStage state ppsEn).work ≤ state.work + 13 * ppsEn.toNat := by
  have hsend : (ppsStage state ppsEn).sendWork = state.sendWork := by
    unfold ppsStage
    split_ifs <;> rfl
  rw [ArpState.work, ArpState.work, hsend]
  unfold ppsStage
  split_ifs with hpulse
  · simp only [hpulse, Bool.toNat_true]
    omega
  · exact Nat.le_add_right _ _
  · exact Nat.le_add_right _ _

/-- A packet raises the flag of a reply at most. -/
theorem dispatch_work (state : ArpState) (recv : Received) :
    (dispatch addresses state recv).work ≤ state.work + 13 := by
  have hsend : (dispatch addresses state recv).sendWork = state.sendWork := by
    unfold dispatch
    split_ifs <;> rfl
  rw [ArpState.work, ArpState.work, hsend]
  unfold dispatch
  have hflag := state.outSendArpRpyStdby.toNat_le
  split_ifs
  · simp only [Bool.toNat_true]
    omega
  all_goals exact Nat.le_add_right _ _

theorem inputStage_work (state : ArpState) :
    (inputStage addresses state).work ≤ state.work + 13 * occupied state.inStage0 := by
  unfold inputStage
  split
  next hnone => simp [hnone]
  next inStage0 hsome =>
      simp only [hsome, occupied_some]
      split_ifs
      · exact dispatch_work addresses state _
      · exact Nat.le_add_right _ _

theorem modeControl_work (state : ArpState) :
    (modeControl state).work + state.starts.toNat ≤ state.work := by
  unfold modeControl ArpState.starts
  split_ifs <;> simp_all [ArpState.work, ArpState.sendWork]
  omega

/-! ## One call -/

section Call

variable {config : Config}
  (hidx : config.state.outSendMode ≠ .idle → config.state.outSendIdx.toNat ≤ 5) (call : Call)
include hidx

/-- Whatever a section does makes the work that is left smaller. -/
theorem step_work :
    (step addresses config call).work + (config.state.outStageEn && call.accept).toNat +
        (placed addresses (flushed config.state call.accept)).length +
        (config.ppsEn call).toNat + occupied config.state.inStage0 +
        (config.beforeControl addresses call).starts.toNat +
        occupied (step addresses config call).state.inStage0 ≤ config.work := by
  have hflushed := flushed_work config.state call.accept
  have hsend := sendStage_work addresses (flushed config.state call.accept) hidx
  have hpulse := ppsStage_work (sendStage addresses (flushed config.state call.accept))
    (config.ppsEn call)
  have hinput : (config.beforeControl addresses call).work ≤
      (ppsStage (sendStage addresses (flushed config.state call.accept))
        (config.ppsEn call)).work + 13 * occupied config.state.inStage0 := by
    have hstage0 : (ppsStage (sendStage addresses (flushed config.state call.accept))
        (config.ppsEn call)).inStage0 = config.state.inStage0 :=
      ppsStage_keeps addresses ArpState.inStage0 (fun _ _ => rfl) (fun _ _ _ _ => rfl) _ _ _
    rw [← hstage0]
    exact inputStage_work addresses _
  have hcontrol := modeControl_work (config.beforeControl addresses call)
  have hpps := step_pps addresses config call
  have hread : occupied (step addresses config call).state.inStage0 +
      (step addresses config call).input.length = config.input.length := by
    rw [(step_reads addresses config call).1, (step_reads addresses config call).2]
    cases call.deliver <;> cases config.input <;> simp [Nat.add_comm]
  have hwork : (step addresses config call).state.work =
      (modeControl (config.beforeControl addresses call)).work := by
    rw [step_state_eq]
    rfl
  rw [Config.work, Config.work, hwork]
  omega

theorem step_work_le : (step addresses config call).work ≤ config.work := by
  have hwork := step_work addresses hidx call
  omega

/-- A call that is served and not refused does something while there is work left. -/
theorem step_work_lt (hopen : config.work ≠ 0) :
    (step addresses config ⟨true, true, true⟩).work < config.work := by
  have hwork := step_work addresses hidx ⟨true, true, true⟩
  dsimp only at hwork
  by_contra hsame
  -- no section does anything, so there is nothing to do for any of them
  have hstaged : config.state.outStageEn = false := by
    have hzero : (config.state.outStageEn && true).toNat = 0 := by omega
    simpa using hzero
  have hidle : config.state.outSendMode = .idle := by
    have hzero : (placed addresses (flushed config.state true)).length = 0 := by omega
    have hfree : (flushed config.state true).outStageEn = false := by simp [flushed]
    rw [placed, hfree] at hzero
    cases hmode : config.state.outSendMode <;> simp [flushed, hmode] at hzero ⊢
  have hpulse : config.ppsEn ⟨true, true, true⟩ = false := by
    have hzero : (config.ppsEn ⟨true, true, true⟩).toNat = 0 := by omega
    simpa using hzero
  have hstage0 : config.state.inStage0 = none := by
    have hzero : occupied config.state.inStage0 = 0 := by omega
    cases hheld : config.state.inStage0 <;> simp [hheld] at hzero ⊢
  have hstarts : (config.beforeControl addresses ⟨true, true, true⟩).starts = false := by
    have hzero : (config.beforeControl addresses ⟨true, true, true⟩).starts.toNat = 0 := by omega
    simpa using hzero
  have hinput : config.input = [] := by
    have hzero : occupied (step addresses config ⟨true, true, true⟩).state.inStage0 = 0 := by
      omega
    rw [(step_reads addresses config _).2] at hzero
    cases hqueue : config.input <;> simp [hqueue] at hzero ⊢
  have hpps : config.pps = [] := by
    cases hqueue : config.pps with
    | nil => rfl
    | cons pulse rest => simp [Config.ppsEn, hqueue, StreamIn.tryRead] at hpulse
  have hmode : (config.beforeControl addresses ⟨true, true, true⟩).outSendMode = .idle := by
    rw [(beforeControl_position addresses config _).mode, sendStage]
    simp [flushed, hidle]
  have hrpy : (config.beforeControl addresses ⟨true, true, true⟩).outSendArpRpyStdby =
      config.state.outSendArpRpyStdby :=
    (beforeControl_of_not_accepted addresses config _ (by simp [accepted, hstage0])).stdby
  have hreq : (config.beforeControl addresses ⟨true, true, true⟩).outSendArpReqStdby =
      config.state.outSendArpReqStdby := by
    rw [(beforeControl_cache addresses config _).2, hpulse, Bool.false_and, Bool.or_false]
  simp only [ArpState.starts, hmode, hrpy, hreq, decide_true, Bool.true_and, Bool.or_eq_false_iff]
    at hstarts
  apply hopen
  simp [Config.work, ArpState.work, ArpState.sendWork, hstaged, hidle, hstarts, hstage0, hinput,
    hpps]

end Call

/-! ## At rest -/

theorem sent_of_rest {config : Config} (hrest : config.work = 0) :
    config.sent = config.output := by
  have hstaged : config.state.outStageEn.toNat = 0 := by
    rw [Config.work, ArpState.work] at hrest
    omega
  rw [Bool.toNat_eq_zero] at hstaged
  simp [Config.sent, ArpState.staged, hstaged]

section Rest

variable {addresses} {config : Config} (hconfig : Accounted addresses config)
include hconfig

theorem Accounted.idx_le : config.state.outSendMode ≠ .idle →
    config.state.outSendIdx.toNat ≤ 5 := by
  intro hbusy
  obtain ⟨-, -, -, hidx, -⟩ := hconfig.sending.busy hbusy
  exact hidx

variable (hrest : config.work = 0)
include hrest

/-- At rest nothing is written any more. -/
theorem Accounted.step_rest (call : Call) :
    (step addresses config call).work = 0 ∧
      (step addresses config call).output = config.output := by
  have hwork := step_work addresses hconfig.idx_le call
  have hlater : (step addresses config call).work = 0 := by omega
  have hplaced : placed addresses (flushed config.state call.accept) = [] :=
    List.length_eq_zero_iff.mp (by omega)
  refine ⟨hlater, ?_⟩
  rw [← sent_of_rest hlater, step_sent, hplaced, List.append_nil, sent_of_rest hrest]

/-- At rest all frames started have been written. -/
theorem Accounted.length_of_rest : config.output.length = 6 * config.frames.length := by
  rw [← sent_of_rest hrest]
  apply hconfig.sending.idle
  by_contra hbusy
  have hidx := hconfig.idx_le hbusy
  rw [Config.work, ArpState.work, ArpState.sendWork, if_neg hbusy] at hrest
  omega

end Rest

end IcmpServer.ArpProc
