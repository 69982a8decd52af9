import IcmpServer.ArpProc.Arrivals
import IcmpServer.Elastic.Countdown

/-! # The pace of requests

`arp_cache_invalidate_count` is a countdown over the PPS pulses, reloaded by the
gateway's packets. A pulse that finds it at zero raises
`out_send_arp_req_stdby`, which `out_send_mode` control turns into a request when
no reply comes before.
-/

namespace IcmpServer.ArpProc

open Elastic

variable (addresses : Addresses)

/-! ## Events -/

/-- The dispatch flow finds a packet that refreshes the cache. -/
def refreshes (state : ArpState) : Bool :=
  (evaluated state).any fun recv =>
    decide (decision addresses recv state.outSendArpRpyStdby = .refresh)

/-- What a call has to do with the lifetime of the cache. -/
structure Tick where
  /-- A PPS pulse is read. -/
  pulse : Bool
  /-- `out_send_arp_req_stdby` is set and was not. -/
  raised : Bool
  /-- A packet of the gateway refreshes the cache. -/
  refreshed : Bool
deriving DecidableEq, Repr

def tick (config : Config) (call : Call) : Tick where
  pulse := config.ppsEn call
  raised := !config.state.outSendArpReqStdby &&
    (config.beforeControl addresses call).outSendArpReqStdby
  refreshed := refreshes addresses config.state

/-- The events of a run, oldest first. -/
def ticks (config : Config) : List Call → List Tick
  | [] => []
  | call :: rest => tick addresses config call :: ticks (step addresses config call) rest

theorem ticks_append_singleton (config : Config) (schedule : List Call) (call : Call) :
    ticks addresses config (schedule ++ [call]) =
      ticks addresses config schedule ++ [tick addresses (run addresses config schedule) call] := by
  induction schedule generalizing config with
  | nil => rfl
  | cons first rest ih =>
      rw [List.cons_append, ticks, ih (step addresses config first)]
      rfl

/-- The frame is a request. -/
def Frame.isRequest (frame : Frame) : Bool :=
  !frame.isReply

/-! ## The countdown and the pending request in a call -/

theorem sendStage_cache (state : ArpState) :
    (sendStage addresses state).arpCacheInvalidateCount = state.arpCacheInvalidateCount ∧
      (sendStage addresses state).outSendArpReqStdby = state.outSendArpReqStdby :=
  ⟨sendStage_keeps addresses ArpState.arpCacheInvalidateCount (fun _ _ => rfl) state,
    sendStage_keeps addresses ArpState.outSendArpReqStdby (fun _ _ => rfl) state⟩

/-- A pulse counts down, or at zero raises the flag. -/
theorem ppsStage_cache (state : ArpState) (ppsEn : Bool) :
    (ppsStage state ppsEn).arpCacheInvalidateCount.toNat =
        state.arpCacheInvalidateCount.toNat - ppsEn.toNat ∧
      (ppsStage state ppsEn).outSendArpReqStdby =
        (state.outSendArpReqStdby ||
          (ppsEn && decide (state.arpCacheInvalidateCount.toNat = 0))) := by
  have hzero : state.arpCacheInvalidateCount = 0#16 ↔
      state.arpCacheInvalidateCount.toNat = 0 := by
    rw [← BitVec.toNat_inj, BitVec.toNat_zero]
  unfold ppsStage
  split_ifs with hpulse hexpired
  · have hnone := hzero.mp hexpired
    simp [hpulse, hnone]
  · have hsome := mt hzero.mpr hexpired
    simp only [hpulse, hsome, decide_false, Bool.and_false, Bool.or_false, Bool.toNat_true]
    exact ⟨by bv_omega, trivial⟩
  · simp [hpulse]

theorem dispatch_cache (state : ArpState) (recv : Received) :
    (dispatch addresses state recv).arpCacheInvalidateCount =
        (if decision addresses recv state.outSendArpRpyStdby = .refresh then arpCacheLifetime
        else state.arpCacheInvalidateCount) ∧
      (dispatch addresses state recv).outSendArpReqStdby = state.outSendArpReqStdby := by
  rw [dispatch_eq]
  cases decision addresses recv state.outSendArpRpyStdby <;> exact ⟨rfl, rfl⟩

theorem inputStage_cache (state : ArpState) :
    (inputStage addresses state).arpCacheInvalidateCount =
        (if refreshes addresses state then arpCacheLifetime
        else state.arpCacheInvalidateCount) ∧
      (inputStage addresses state).outSendArpReqStdby = state.outSendArpReqStdby := by
  cases hstage0 : state.inStage0 with
  | none => simp [inputStage, refreshes, evaluated, hstage0]
  | some inStage0 =>
      by_cases hsop : state.inStage5.sop = 0#8
      · simp [inputStage, refreshes, evaluated, hstage0, hsop, pushStages]
      · have hdispatch := dispatch_cache addresses state
          (received state.inStage3 state.inStage2 state.inStage1 inStage0)
        simp only [inputStage, refreshes, evaluated, hstage0, ne_eq, hsop, not_false_eq_true,
          if_true, Option.any_some, decide_eq_true_eq]
        exact hdispatch

/-- The sections before the dispatch have no part in a refresh. -/
theorem refreshes_ppsStage (state : ArpState) (accept ppsEn : Bool) :
    refreshes addresses (ppsStage (sendStage addresses (flushed state accept)) ppsEn) =
      refreshes addresses state := by
  rw [refreshes, (evaluated_ppsStage addresses state accept ppsEn).1,
    (ppsStage_reply addresses state accept ppsEn).stdby, refreshes]

section Call

variable (config : Config) (call : Call)

theorem beforeControl_cache :
    (config.beforeControl addresses call).arpCacheInvalidateCount.toNat =
        (if refreshes addresses config.state then 16
        else config.state.arpCacheInvalidateCount.toNat - (config.ppsEn call).toNat) ∧
      (config.beforeControl addresses call).outSendArpReqStdby =
        (config.state.outSendArpReqStdby || (config.ppsEn call &&
          decide (config.state.arpCacheInvalidateCount.toNat = 0))) := by
  obtain ⟨hcount, hflag⟩ := inputStage_cache addresses
    (ppsStage (sendStage addresses (flushed config.state call.accept)) (config.ppsEn call))
  obtain ⟨hpulse, hraised⟩ :=
    ppsStage_cache (sendStage addresses (flushed config.state call.accept)) (config.ppsEn call)
  obtain ⟨hkept, hpending⟩ := sendStage_cache addresses (flushed config.state call.accept)
  rw [Config.beforeControl, hcount, hflag, hraised, hkept, hpending, refreshes_ppsStage]
  refine ⟨?_, rfl⟩
  rw [apply_ite BitVec.toNat, hpulse, hkept]
  rfl

theorem step_count :
    (step addresses config call).state.arpCacheInvalidateCount.toNat =
      if refreshes addresses config.state then 16
      else config.state.arpCacheInvalidateCount.toNat - (config.ppsEn call).toNat := by
  rw [← (beforeControl_cache addresses config call).1, step_state_eq, modeControl]
  split_ifs <;> rfl

/-- `out_send_mode` control turns the flag into a request. -/
theorem modeControl_request (state : ArpState) (requests : List Received) :
    (started state requests).countP Frame.isRequest + (modeControl state).outSendArpReqStdby.toNat =
      state.outSendArpReqStdby.toNat := by
  unfold started modeControl
  split_ifs with hidle hreply hrequest
  · cases requests <;> simp [Frame.isRequest, Frame.isReply]
  · simp [Frame.isRequest, Frame.isReply, hrequest]
  · simp
  · simp

/-- A pending request stays so or is started. -/
theorem modeControl_pending_request {state : ArpState}
    (hpending : state.outSendArpReqStdby = true) (requests : List Received) :
    (modeControl state).outSendArpReqStdby = true ∨ started state requests = [.request] := by
  unfold started modeControl
  split_ifs with hidle hreply
  · exact Or.inl hpending
  · exact Or.inr rfl
  · exact Or.inl hpending

/-- A raised request is started or pending. -/
theorem step_request :
    (step addresses config call).frames.countP Frame.isRequest +
        (step addresses config call).state.outSendArpReqStdby.toNat =
      config.frames.countP Frame.isRequest + config.state.outSendArpReqStdby.toNat +
        (tick addresses config call).raised.toNat := by
  have hflag : (step addresses config call).state.outSendArpReqStdby =
      (modeControl (config.beforeControl addresses call)).outSendArpReqStdby := by
    rw [step_state_eq]
  have hcontrol := modeControl_request (config.beforeControl addresses call)
    (step addresses config call).requests
  have hraised : (config.beforeControl addresses call).outSendArpReqStdby.toNat =
      config.state.outSendArpReqStdby.toNat + (tick addresses config call).raised.toNat := by
    rw [tick, (beforeControl_cache addresses config call).2]
    cases config.state.outSendArpReqStdby <;> simp
  rw [step_frames, List.countP_append, hflag]
  omega

end Call

/-! ## Runs -/

/-- The countdown and the requests as the events of the run have them. -/
structure Paced (log : List Tick) (config : Config) : Prop where
  count : config.state.arpCacheInvalidateCount.toNat =
    remaining Tick.refreshed Tick.pulse 16 log
  requests : config.frames.countP Frame.isRequest + config.state.outSendArpReqStdby.toNat =
    log.countP Tick.raised

theorem step_paced {log : List Tick} {config : Config} (hpaced : Paced log config) (call : Call) :
    Paced (log ++ [tick addresses config call]) (step addresses config call) where
  count := by
    rw [step_count, remaining_append_singleton, hpaced.count]
    rfl
  requests := by
    rw [step_request, hpaced.requests, List.countP_append, List.countP_singleton]
    cases (tick addresses config call).raised <;> rfl

theorem run_paced (input : List Beat) (pps : List (BitVec 8)) (schedule : List Call) :
    Paced (ticks addresses (start input pps) schedule)
      (run addresses (start input pps) schedule) := by
  induction schedule using List.reverseRecOn with
  | nil => exact ⟨rfl, rfl⟩
  | append_singleton schedule call ih =>
      have hrun : run addresses (start input pps) (schedule ++ [call]) =
          step addresses (run addresses (start input pps) schedule) call := List.foldl_append
      rw [ticks_append_singleton, hrun]
      exact step_paced addresses ih call

/-! ## The pace -/

/-- A call after these events: a request is raised by a pulse and only when the
cache has expired, and every pulse then leaves a request pending or started. -/
structure OnPace (log : List Tick) (config : Config) (call : Call) : Prop where
  raised : (tick addresses config call).raised = true →
    config.ppsEn call = true ∧ Expired Tick.refreshed Tick.pulse 16 log
  flag : config.state.outSendArpReqStdby = false →
    (step addresses config call).state.outSendArpReqStdby = true →
      (tick addresses config call).raised = true
  expired : config.ppsEn call = true → Expired Tick.refreshed Tick.pulse 16 log →
    (step addresses config call).state.outSendArpReqStdby = true ∨
      (step addresses config call).frames = config.frames ++ [.request]

theorem Paced.onPace {log : List Tick} {config : Config} (hpaced : Paced log config)
    (call : Call) : OnPace addresses log config call := by
  have hflag := (beforeControl_cache addresses config call).2
  have hexpired : config.state.arpCacheInvalidateCount.toNat = 0 ↔
      Expired Tick.refreshed Tick.pulse 16 log := by
    rw [hpaced.count, remaining_eq_zero_iff]
  refine ⟨?_, ?_, ?_⟩
  · intro hraised
    simp only [tick, hflag, Bool.and_eq_true, Bool.not_eq_true', Bool.or_eq_true,
      decide_eq_true_eq] at hraised
    obtain ⟨hclear, hset | ⟨hpulse, hzero⟩⟩ := hraised
    · simp [hclear] at hset
    · exact ⟨hpulse, hexpired.mp hzero⟩
  · intro hclear hset
    have hrequest := step_request addresses config call
    rw [step_frames, List.countP_append, hclear, hset] at hrequest
    cases hraised : (tick addresses config call).raised with
    | true => rfl
    | false =>
        simp only [hraised, Bool.toNat_true, Bool.toNat_false] at hrequest
        omega
  · intro hpulse hlog
    have hpending : (config.beforeControl addresses call).outSendArpReqStdby = true := by
      rw [hflag, hpulse, decide_eq_true (hexpired.mpr hlog), Bool.true_and, Bool.or_true]
    rw [step_state_eq, step_frames]
    rcases modeControl_pending_request hpending (step addresses config call).requests with
      hstays | hstarts
    · exact Or.inl hstays
    · exact Or.inr (congrArg _ hstarts)

/-- At every moment of a run the count is what is left of the lifetime after the
pulses since the last refresh, every raised request is a frame or pending, and
requests are raised exactly by the pulses that find the cache expired. -/
theorem arpProc_paces (input : List Beat) (pps : List (BitVec 8)) (schedule : List Call) :
    let config := run addresses (start input pps) schedule
    let log := ticks addresses (start input pps) schedule
    config.state.arpCacheInvalidateCount.toNat = remaining Tick.refreshed Tick.pulse 16 log ∧
      config.frames.countP Frame.isRequest + config.state.outSendArpReqStdby.toNat =
        log.countP Tick.raised ∧
      ∀ call, OnPace addresses log config call := by
  intro config log
  have hpaced : Paced log config := run_paced addresses input pps schedule
  exact ⟨hpaced.count, hpaced.requests, hpaced.onPace addresses⟩

end IcmpServer.ArpProc
