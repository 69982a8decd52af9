import IcmpServer.ArpProc.Pacing

/-! # The cache and back-pressure

Refused writes delay the sender, and with it the moment at which
`out_send_arp_rpy_stdby` is cleared. The dispatch flow reads that flag, but only
to choose between a reply and the branches of `GTW_IP`, of which none is open to
a request for another address.
-/

namespace IcmpServer.ArpProc

open Elastic

variable (addresses : Addresses)

/-! ## What a call reads -/

/-- The beat and the PPS pulse read in a call. -/
structure Reads where
  beat : Option Beat
  pulse : Bool
deriving DecidableEq, Repr

def Config.reads (config : Config) (call : Call) : Reads where
  beat := (⟨config.input, call.deliver⟩ : StreamIn Beat).tryRead.1
  pulse := config.ppsEn call

/-- What a run reads call by call. -/
def reads (config : Config) : List Call → List Reads
  | [] => []
  | call :: rest => config.reads call :: reads (step addresses config call) rest

theorem step_inStage0 (config : Config) (call : Call) :
    (step addresses config call).state.inStage0 = (config.reads call).beat := by
  rw [(step_reads addresses config call).2, Config.reads]
  cases call.deliver <;> cases config.input <;> rfl

/-! ## The receiver -/

/-- With an own address beside the gateway's, a pending reply does not decide on a
refresh. -/
theorem decision_refresh_iff (haddresses : addresses.ownIp ≠ addresses.gtwIp) (recv : Received)
    (outSendArpRpyStdby : Bool) :
    decision addresses recv outSendArpRpyStdby = .refresh ↔
      recv.srcIp = addresses.gtwIp ∧ (recv.arpOp = 0x01#8 → recv.dstIp = addresses.gtwIp) := by
  unfold decision
  split_ifs with hop hown hgtw hfrom
  · have hother : recv.dstIp ≠ addresses.gtwIp := hown.1 ▸ haddresses
    simp [hop, hother]
  · simp [hop, hgtw]
  · simp only [hop, true_imp_iff, false_iff]
    exact fun hboth => hgtw hboth.symm
  · simp [hop, hfrom]
  · simp [hfrom]

/-- The receive stages and the cache are the same. -/
structure SameCache (state other : ArpState) : Prop where
  window : state.window = other.window
  gtwMac : state.gtwMac = other.gtwMac
  count : state.arpCacheInvalidateCount = other.arpCacheInvalidateCount

theorem inStage0_of_window {state other : ArpState} (hwindow : state.window = other.window) :
    state.inStage0 = other.inStage0 := by
  simp only [ArpState.window, List.cons_append, List.nil_append, List.cons.injEq] at hwindow
  have hread := congrArg List.head? hwindow.2.2.2.2.2
  rwa [Option.head?_toList, Option.head?_toList] at hread

theorem evaluated_of_window {state other : ArpState} (hwindow : state.window = other.window) :
    evaluated state = evaluated other := by
  have hstage0 := inStage0_of_window hwindow
  simp only [ArpState.window, List.cons_append, List.nil_append, List.cons.injEq] at hwindow
  obtain ⟨hstage5, -, hstage3, hstage2, hstage1, -⟩ := hwindow
  rw [evaluated, evaluated, hstage0, hstage5, hstage3, hstage2, hstage1]

/-- The beat read comes into the window behind those that stay. -/
theorem step_window_eq (config : Config) (call : Call) :
    (step addresses config call).state.window =
      config.state.window.drop (occupied config.state.inStage0) ++
        (config.reads call).beat.toList := by
  obtain ⟨hfree, hwindow⟩ := beforeControl_window addresses config call
  have hnone : (modeControl (config.beforeControl addresses call)).inStage0 = none :=
    (modeControl_inStage0 _).trans hfree
  rw [← hwindow, ← modeControl_window (config.beforeControl addresses call),
    ← step_inStage0 addresses, step_state_eq, ArpState.window, ArpState.window, hnone]
  simp

/-- A call stores the source of a packet that refreshes the cache. -/
theorem step_gtwMac (config : Config) (call : Call) :
    (step addresses config call).state.gtwMac =
      (evaluated config.state).elim config.state.gtwMac fun recv =>
        if decision addresses recv config.state.outSendArpRpyStdby = .refresh then recv.srcMac
        else config.state.gtwMac := by
  refine (congrArg Learned.gtwMac (step_learned addresses config call)).trans ?_
  cases evaluated config.state with
  | none => rfl
  | some recv =>
      simp only [Option.elim_some]
      cases decision addresses recv config.state.outSendArpRpyStdby <;> rfl

/-! ## Two runs -/

section Isolation

variable (haddresses : addresses.ownIp ≠ addresses.gtwIp)
include haddresses

/-- Calls that read the same keep the same cache. -/
theorem step_sameCache {config other : Config} (hsame : SameCache config.state other.state)
    {call otherCall : Call} (hreads : config.reads call = other.reads otherCall) :
    SameCache (step addresses config call).state (step addresses other otherCall).state := by
  have hevaluated := evaluated_of_window hsame.window
  have hrefresh : ∀ recv,
      decision addresses recv config.state.outSendArpRpyStdby = .refresh ↔
        decision addresses recv other.state.outSendArpRpyStdby = .refresh := by
    intro recv
    rw [decision_refresh_iff addresses haddresses, decision_refresh_iff addresses haddresses]
  refine ⟨?_, ?_, ?_⟩
  · rw [step_window_eq, step_window_eq, hsame.window, inStage0_of_window hsame.window, hreads]
  · simp only [step_gtwMac, hevaluated, hrefresh, hsame.gtwMac]
  · have hpulse : config.ppsEn call = other.ppsEn otherCall := congrArg Reads.pulse hreads
    have hrefreshes : refreshes addresses config.state = refreshes addresses other.state := by
      rw [refreshes, refreshes, hevaluated]
      exact congrArg (fun p => Option.any p (evaluated other.state))
        (funext fun recv => decide_eq_decide.mpr (hrefresh recv))
    apply BitVec.eq_of_toNat_eq
    rw [step_count, step_count, hrefreshes, hsame.count, hpulse]

theorem run_sameCache {config other : Config} (hsame : SameCache config.state other.state)
    {schedule otherSchedule : List Call}
    (hreads : reads addresses config schedule = reads addresses other otherSchedule) :
    SameCache (run addresses config schedule).state (run addresses other otherSchedule).state := by
  induction schedule generalizing config other otherSchedule with
  | nil =>
      cases otherSchedule with
      | nil => exact hsame
      | cons call rest => simp [reads] at hreads
  | cons call rest ih =>
      cases otherSchedule with
      | nil => simp [reads] at hreads
      | cons otherCall otherRest =>
          obtain ⟨hcall, hrest⟩ := List.cons_eq_cons.mp hreads
          exact ih (step_sameCache addresses haddresses hsame hcall) hrest

omit haddresses in
theorem reads_take (config : Config) (schedule : List Call) (calls : Nat) :
    reads addresses config (schedule.take calls) =
      (reads addresses config schedule).take calls := by
  induction schedule generalizing config calls with
  | nil => simp [reads]
  | cons call rest ih =>
      cases calls with
      | zero => rfl
      | succ calls => rw [List.take_succ_cons, reads, reads, List.take_succ_cons, ih]

/-- In two runs that read the same beats and PPS pulses call by call the cache is the
same after every call, whichever writes are refused in either. -/
theorem arpProc_isolates (input otherInput : List Beat) (pps otherPps : List (BitVec 8))
    (schedule otherSchedule : List Call)
    (hreads : reads addresses (start input pps) schedule =
      reads addresses (start otherInput otherPps) otherSchedule) (calls : Nat) :
    let state := (run addresses (start input pps) (schedule.take calls)).state
    let other := (run addresses (start otherInput otherPps) (otherSchedule.take calls)).state
    state.gtwMac = other.gtwMac ∧
      state.arpCacheInvalidateCount = other.arpCacheInvalidateCount := by
  intro state other
  have hstart : SameCache (start input pps).state (start otherInput otherPps).state :=
    ⟨rfl, rfl, rfl⟩
  have hprefix : reads addresses (start input pps) (schedule.take calls) =
      reads addresses (start otherInput otherPps) (otherSchedule.take calls) := by
    rw [reads_take, reads_take, hreads]
  have hsame := run_sameCache addresses haddresses hstart hprefix
  exact ⟨hsame.gtwMac, hsame.count⟩

end Isolation

/-- Two requests for `OWN_IP` and a reply of the gateway. -/
def requestsAndReply : List (List Beat) :=
  twoRequests ++
    [[⟨0x0600000000000600#64, 1#8, 0#8, 0#8⟩, ⟨0x0000000108060001#64, 0#8, 0#8, 0#8⟩,
      ⟨0x0800060400020600#64, 0#8, 0#8, 0#8⟩, ⟨0x00000001c0a80201#64, 0#8, 0#8, 0#8⟩,
      ⟨0x060000000000c0a8#64, 0#8, 0#8, 0#8⟩, ⟨0x0264000000000000#64, 0#8, 1#8, 6#8⟩]]

/-- The reply of the gateway is stored with every write refused as with none. -/
theorem arpProc_isolates_requestsAndReply :
    (run .default (start requestsAndReply.flatten [1#8])
        ((List.replicate 20 ⟨true, true, false⟩).take 20)).state.gtwMac =
      (run .default (start requestsAndReply.flatten [1#8])
        ((List.replicate 20 served).take 20)).state.gtwMac := by
  have haddresses : Addresses.default.ownIp ≠ Addresses.default.gtwIp := by decide
  exact (arpProc_isolates .default haddresses requestsAndReply.flatten requestsAndReply.flatten
    [1#8] [1#8] (List.replicate 20 ⟨true, true, false⟩) (List.replicate 20 served)
    (by decide) 20).1

end IcmpServer.ArpProc
