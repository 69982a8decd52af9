import IcmpServer.ArpProc.Decisions

/-! # The arrival of a packet

From any state, six deliveries bring the first six beats of the input into the
receive stages. Until then nothing else of the input has a part in the state.
-/

namespace IcmpServer.ArpProc

open Elastic

variable (addresses : Addresses)

/-! ## Deliveries -/

/-- How many beats a schedule delivers. -/
def deliveries (schedule : List Call) : Nat :=
  (schedule.filter Call.deliver).length

theorem run_input (schedule : List Call) (config : Config) :
    (run addresses config schedule).input = config.input.drop (deliveries schedule) := by
  induction schedule generalizing config with
  | nil => rfl
  | cons call rest ih =>
      have hinput := (step_reads addresses config call).1
      refine (ih (step addresses config call)).trans ?_
      rw [hinput]
      cases hdeliver : call.deliver with
      | false => simp [deliveries, hdeliver]
      | true =>
          simp only [deliveries, List.filter_cons_of_pos hdeliver, List.length_cons, if_true]
          rw [List.drop_tail, Nat.add_comm]

/-- Of the input a call uses the beat it reads. -/
theorem step_state_eq (config : Config) (call : Call) :
    (step addresses config call).state =
      { modeControl (config.beforeControl addresses call) with
        inStage0 := if call.deliver then config.input.head? else none } := by
  rw [← (step_reads addresses config call).2]
  simp only [step, arpProc, outputStage_eq]
  rfl

/-! ## What is not read -/

/-- A received beat without `eop` and `empty`. -/
def plain (beat : Beat) : Beat :=
  { beat with eop := 0#8, empty := 0#8 }

/-- The state without them in the receive stages. -/
def ArpState.plain (state : ArpState) : ArpState :=
  { state with
    inStage5 := ArpProc.plain state.inStage5
    inStage4 := ArpProc.plain state.inStage4
    inStage3 := ArpProc.plain state.inStage3
    inStage2 := ArpProc.plain state.inStage2
    inStage1 := ArpProc.plain state.inStage1
    inStage0 := state.inStage0.map ArpProc.plain }

theorem sendStage_plain (state : ArpState) :
    sendStage addresses state.plain = (sendStage addresses state).plain := by
  cases hen : state.outStageEn <;> cases hmode : state.outSendMode <;>
    simp [sendStage, ArpState.plain, placeBeat, hen, hmode]

theorem ppsStage_plain (state : ArpState) (ppsEn : Bool) :
    ppsStage state.plain ppsEn = (ppsStage state ppsEn).plain := by
  rw [ppsStage, ppsStage, apply_ite ArpState.plain, apply_ite ArpState.plain]
  rfl

theorem dispatch_plain (state : ArpState) (recv : Received) :
    dispatch addresses state.plain recv = (dispatch addresses state recv).plain := by
  simp only [dispatch, apply_ite ArpState.plain]
  rfl

theorem inputStage_plain (state : ArpState) :
    inputStage addresses state.plain = (inputStage addresses state).plain := by
  cases hstage0 : state.inStage0 with
  | none => simp only [inputStage, ArpState.plain, hstage0, Option.map_none]
  | some inStage0 =>
      have hplain : state.plain.inStage0 = some (ArpProc.plain inStage0) := by
        rw [ArpState.plain, hstage0, Option.map_some]
      have hdispatch : (if state.inStage5.sop ≠ 0#8 then dispatch addresses state.plain
            (received state.inStage3 state.inStage2 state.inStage1 inStage0) else state.plain) =
          (if state.inStage5.sop ≠ 0#8 then dispatch addresses state
            (received state.inStage3 state.inStage2 state.inStage1 inStage0) else state).plain := by
        rw [apply_ite ArpState.plain, dispatch_plain]
      simp only [inputStage, hplain, hstage0]
      exact congrArg (pushStages · (ArpProc.plain inStage0)) hdispatch

theorem modeControl_plain (state : ArpState) :
    modeControl state.plain = (modeControl state).plain := by
  simp only [modeControl, apply_ite ArpState.plain]
  rfl

/-! ## Two inputs with the same beginning -/

/-- The configurations differ in what is not read at most, as far as the state
depends on it. -/
def SameState (left right : Config) : Prop :=
  left.state.plain = right.state.plain ∧ left.pps = right.pps

theorem beforeControl_congr {left right : Config} (hsame : SameState left right) (call : Call) :
    (left.beforeControl addresses call).plain = (right.beforeControl addresses call).plain := by
  have hplain : ∀ config : Config, (config.beforeControl addresses call).plain =
      inputStage addresses (ppsStage (sendStage addresses
        (flushed config.state.plain call.accept)) (config.ppsEn call)) := by
    intro config
    have hflushed : flushed config.state.plain call.accept =
        (flushed config.state call.accept).plain := rfl
    rw [Config.beforeControl, hflushed, sendStage_plain, ppsStage_plain, inputStage_plain]
  rw [hplain, hplain, hsame.1, Config.ppsEn, Config.ppsEn, hsame.2]

/-- Behind a call only the beat read can differ. -/
theorem step_plain {left right : Config} (hsame : SameState left right) (call : Call) :
    (step addresses left call).state.plain =
      { (step addresses right call).state.plain with
        inStage0 := (step addresses left call).state.inStage0.map plain } := by
  have hcontrol : (modeControl (left.beforeControl addresses call)).plain =
      (modeControl (right.beforeControl addresses call)).plain := by
    rw [← modeControl_plain, ← modeControl_plain, beforeControl_congr addresses hsame]
  rw [step_state_eq, step_state_eq]
  exact congrArg (fun state : ArpState => { state with
    inStage0 := (if call.deliver then left.input.head? else none).map plain }) hcontrol

/-- Calls that read the same beat keep the states the same. -/
theorem step_sameState {left right : Config} (hsame : SameState left right) (call : Call)
    (hread : call.deliver = true → left.input.head?.map plain = right.input.head?.map plain) :
    SameState (step addresses left call) (step addresses right call) := by
  have hpps : ∀ config : Config, (step addresses config call).pps =
      (⟨config.pps, call.deliverPps⟩ : StreamIn (BitVec 8)).tryRead.2.queue := by
    intro config
    simp only [step, arpProc]
  have hstage0 : (step addresses left call).state.inStage0.map plain =
      (step addresses right call).state.inStage0.map plain := by
    rw [(step_reads addresses left call).2, (step_reads addresses right call).2]
    cases hdeliver : call.deliver with
    | false => rfl
    | true => exact hread hdeliver
  refine ⟨?_, by rw [hpps, hpps, hsame.2]⟩
  rw [step_plain addresses hsame, hstage0]
  rfl

theorem run_sameState {common common' rest rest' : List Beat} (schedule : List Call)
    {left right : Config} (hsame : SameState left right) (hleft : left.input = common ++ rest)
    (hright : right.input = common' ++ rest') (hcommon : common.map plain = common'.map plain)
    (hcount : deliveries schedule ≤ common.length) :
    SameState (run addresses left schedule) (run addresses right schedule) := by
  induction schedule generalizing left right common common' with
  | nil => exact hsame
  | cons call schedule ih =>
      have hinput := fun config => (step_reads addresses config call).1
      cases hdeliver : call.deliver with
      | false =>
          simp only [hdeliver, Bool.false_eq_true, if_false] at hinput
          have hnext := step_sameState addresses hsame call (by simp [hdeliver])
          refine ih hnext ((hinput left).trans hleft) ((hinput right).trans hright) hcommon ?_
          simpa [deliveries, hdeliver] using hcount
      | true =>
          simp only [hdeliver, if_true] at hinput
          simp only [deliveries, List.filter_cons_of_pos hdeliver, List.length_cons] at hcount
          cases common with
          | nil => simp at hcount
          | cons beat common =>
              cases common' with
              | nil => simp at hcommon
              | cons beat' common' =>
                  obtain ⟨hbeat, htail⟩ := List.cons_eq_cons.mp hcommon
                  have hnextLeft : (step addresses left call).input = common ++ rest := by
                    rw [hinput, hleft, List.cons_append, List.tail_cons]
                  have hnextRight : (step addresses right call).input = common' ++ rest' := by
                    rw [hinput, hright, List.cons_append, List.tail_cons]
                  have hnext := step_sameState addresses hsame call
                    (by simp [hleft, hright, hbeat])
                  exact ih hnext hnextLeft hnextRight htail (Nat.le_of_succ_le_succ hcount)

/-! ## In the receive stages -/

/-- The configuration behind a call that reads a beat. -/
def arrived (config : Config) (input : List Beat) (front : List Call) (reading : Call) : Config :=
  run addresses { config with input } (front ++ [reading])

theorem arrived_eq (config : Config) (input : List Beat) (front : List Call) (reading : Call) :
    arrived addresses config input front reading =
      step addresses (run addresses { config with input } front) reading := by
  rw [arrived, run, List.foldl_append]
  rfl

section Arrived

variable (config : Config) {front : List Call} {reading : Call}
  (hfront : deliveries front = 5) (hreading : reading.deliver = true)
include hfront hreading

/-- Behind six deliveries the receive stages hold the first six beats. -/
theorem arrived_window {input : List Beat} (hlength : 6 ≤ input.length) :
    (arrived addresses config input front reading).state.window ++
        (arrived addresses config input front reading).input = input ∧
      (arrived addresses config input front reading).state.inStage0 = input[5]? := by
  have hread : (run addresses { config with input } front).input = input.drop 5 := by
    rw [run_input, hfront]
  have harrived := arrived_eq addresses config input front reading
  obtain ⟨hinput, hstage0⟩ :=
    step_reads addresses (run addresses { config with input } front) reading
  rw [← harrived, hread, hreading, if_pos rfl] at hinput hstage0
  rw [List.tail_drop] at hinput
  rw [List.head?_drop] at hstage0
  refine ⟨?_, hstage0⟩
  have hwindow : (arrived addresses config input front reading).state.window ++
      (arrived addresses config input front reading).input <:+ config.state.window ++ input :=
    run_isSuffix addresses (front ++ [reading]) { config with input }
  have hwhole : input <:+ config.state.window ++ input := List.suffix_append _ _
  have hlengths : ((arrived addresses config input front reading).state.window ++
      (arrived addresses config input front reading).input).length = input.length := by
    rw [List.length_append, hinput, ArpState.window, hstage0,
      List.getElem?_eq_getElem (by omega)]
    simp
    omega
  exact (List.suffix_of_suffix_length_le hwindow hwhole (Nat.le_of_eq hlengths)).eq_of_length
    hlengths

/-- The next call evaluates the packet at the beginning of the input. -/
theorem arrived_evaluated {first : Beat} {rest : List Beat} (hfirst : first.first = true)
    (hlength : 6 ≤ (first :: rest).length) :
    evaluated (arrived addresses config (first :: rest) front reading).state =
      packetReceived (first :: rest) := by
  obtain ⟨hwindow, hstage0⟩ := arrived_window addresses config hfront hreading hlength
  rw [List.getElem?_eq_getElem (by omega)] at hstage0
  nth_rewrite 2 [← hwindow]
  rw [ArpState.window, hstage0, evaluated, hstage0]
  rw [ArpState.window] at hwindow
  have hstage5 := (List.cons_eq_cons.mp hwindow).1
  have hsop :
      (arrived addresses config (first :: rest) front reading).state.inStage5.sop ≠ 0#8 := by
    rw [hstage5]
    simpa [Beat.first] using hfirst
  simp only [if_pos hsop]
  rfl

variable (reading) in
omit hreading in
/-- What has been stored is the same for inputs with the same five beats. -/
theorem arrived_same {common common' : List Beat} (hlength : common.length = 5)
    (hcommon : common.map plain = common'.map plain) (rest rest' : List Beat) :
    (arrived addresses config (common ++ rest) front reading).state.learned =
        (arrived addresses config (common' ++ rest') front reading).state.learned ∧
      (arrived addresses config (common ++ rest) front reading).state.outSendArpRpyStdby =
        (arrived addresses config (common' ++ rest') front reading).state.outSendArpRpyStdby := by
  have hsame : SameState (run addresses { config with input := common ++ rest } front)
      (run addresses { config with input := common' ++ rest' } front) :=
    run_sameState addresses front ⟨rfl, rfl⟩ rfl rfl hcommon
      (Nat.le_of_eq (hfront.trans hlength.symm))
  have hplain := step_plain addresses hsame reading
  rw [← arrived_eq, ← arrived_eq] at hplain
  have hlearned := congrArg ArpState.learned hplain
  have hstdby := congrArg ArpState.outSendArpRpyStdby hplain
  exact ⟨hlearned, hstdby⟩

end Arrived

end IcmpServer.ArpProc
