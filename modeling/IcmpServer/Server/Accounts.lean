import IcmpServer.Server.Wiring

/-! # The account of the server

In every state reached each component has come as far as some run of its own on
what it has been given, and nothing is lost or added between two components.
-/

namespace IcmpServer.Server

open Elastic Rtl Transmit

variable {scfifo : Scfifo} {words : scfifo.State → List (BitVec 80)}
  {addresses : ArpProc.Addresses} {pps : List (BitVec 8)}

/-- What the merger has been given so far. -/
def State.given (state : State scfifo) : Lane → List Beat
  | .first => state.arp.output
  | .second => state.path.chain.output

/-- What holds of every state reached. -/
structure Accounted (words : scfifo.State → List (BitVec 80)) (addresses : ArpProc.Addresses)
    (pps : List (BitVec 8)) (state : State scfifo) : Prop where
  toUlong2 : l8ToUlong2.Accounted state.toUlong2
  etype : (RxSplit.machine RxSplit.etypeRouter).Reached
    (state.toUlong2.transferred.map unpack) state.etype
  path : IcmpProc.pathMachine.Reached (state.etype.output .ipv4) state.path
  arp : (ArpProc.machine addresses pps).Reached (state.etype.output .arp) state.arp
  merge : TxMerge.Consumed state.given state.merge
  merged : state.merge.output =
    state.transmitter.toL8.accepted.map unpack ++ state.merged
  transmitter : Transmitter.Accounted words state.transmitter

/-! ## What components write stays written -/

theorem append_fresh {before after : List Beat} (hgrows : before <+: after) :
    before ++ fresh before after = after :=
  List.prefix_iff_eq_append.mp hgrows

theorem toUlong2_grows (config : ConverterConfig L8Beat (BitVec 128)) (cycle : Rtl.Cycle L8Beat) :
    config.transferred.map unpack <+: (l8ToUlong2.step config cycle).transferred.map unpack :=
  (List.prefix_append _ _).map unpack

theorem splitter_grows {Port : Type} [DecidableEq Port] {depth : Nat}
    (updateState : Pipeline Beat depth → Option Port) (config : RxSplit.Config Port depth)
    (call : RxSplit.Call Port) (port : Port) :
    config.output port <+: (RxSplit.step (RxSplit.splitCall updateState) config call).output port :=
  (⟨config.output port, call.accept port⟩ : StreamOut Beat).flush_isPrefix (config.state.out port)

theorem arp_grows (config : ArpProc.Config) (call : ArpProc.Call) :
    config.output <+: (ArpProc.step addresses config call).output := by
  simp only [ArpProc.step, ArpProc.arpProc, ArpProc.outputStage_eq]
  exact List.prefix_append _ _

theorem merge_grows (config : TxMerge.Config) (call : TxMerge.Call) :
    config.output <+: (TxMerge.step config call).output :=
  (⟨config.output, call.accept⟩ : StreamOut Beat).flush_isPrefix config.state.stage1

/-- A beat that `ulong2_to_l8` accepts is the next of those on their way. -/
theorem State.accepts_offered (state : State scfifo) (padding : BitVec 40)
    (inValid outReady : Bool) :
    (Converter.accepts state.transmitter.toL8.state
          (offered state padding inValid outReady)).map unpack ++
        state.merged.drop (Converter.accepts state.transmitter.toL8.state
          (offered state padding inValid outReady)).length =
      state.merged := by
  unfold Converter.accepts
  split_ifs with haccepts
  · simp only [offered, Bool.and_eq_true] at haccepts
    cases hmerged : state.merged with
    | nil => simp [hmerged] at haccepts
    | cons beat rest => simp [offered, hmerged, unpack_pack]
  · rfl

/-! ## Steps -/

theorem start_accounted (hideal : scfifo.Ideal words) :
    Accounted words addresses pps (start scfifo pps) where
  toUlong2 := reset_accounted l8ToUlong2
  etype := Machine.reached_start []
  path := Machine.reached_start []
  arp := Machine.reached_start []
  merge := by
    have hgiven : (start scfifo pps).given = fun _ => [] := by
      funext lane
      cases lane <;> rfl
    rw [hgiven]
    exact TxMerge.start_consumed
  merged := rfl
  transmitter := Transmitter.start_accounted hideal

/-- The ICMP path has its own account. -/
theorem Accounted.pathAccounted {state : State scfifo}
    (hstate : Accounted words addresses pps state) (later : List Beat) :
    IcmpProc.PathAccounted (state.etype.output .ipv4 ++ later)
      (IcmpProc.feedPath state.path later) :=
  hstate.path.holds IcmpProc.PathAccounted
    (fun whole schedule => IcmpProc.pathRun_accounted schedule _
      (IcmpProc.pathStart_accounted whole)) later

theorem Accounted.chain_inv {state : State scfifo}
    (hstate : Accounted words addresses pps state) :
    IcmpProc.icmpProcAccount.inv state.path.chain.state :=
  (hstate.pathAccounted []).inv

theorem chain_grows {config : IcmpProc.PathConfig}
    (hinv : IcmpProc.icmpProcAccount.inv config.chain.state) (call : IcmpProc.PathCall) :
    config.chain.output <+: (IcmpProc.pathStep config call).chain.output := by
  cases call with
  | split call => exact List.prefix_rfl
  | chain call =>
      exact IcmpProc.icmpProcAccount.grows call.part config.chain.state
        ⟨config.chain.input, call.deliver⟩ ⟨config.chain.output, call.accept⟩ hinv

section Step

variable {state : State scfifo} (hstate : Accounted words addresses pps state)
include hstate

theorem step_toUlong2 (cycle : Rtl.Cycle L8Beat) :
    Accounted words addresses pps (step addresses state (.toUlong2 cycle)) := by
  refine { hstate with toUlong2 := step_accounted l8ToUlong2 _ _ hstate.toUlong2, etype := ?_ }
  have hfed := hstate.etype.feed (fresh (state.toUlong2.transferred.map unpack)
    ((l8ToUlong2.step state.toUlong2 cycle).transferred.map unpack))
  rwa [append_fresh (toUlong2_grows state.toUlong2 cycle)] at hfed

theorem step_etype (call : RxSplit.Call RxSplit.Etype) :
    Accounted words addresses pps (step addresses state (.etype call)) := by
  have hsent : ∀ port, state.etype.output port ++ fresh (state.etype.output port)
      ((RxSplit.step RxSplit.rxSplitByEtype state.etype call).output port) =
        (RxSplit.step RxSplit.rxSplitByEtype state.etype call).output port :=
    fun port => append_fresh (splitter_grows RxSplit.etypeUpdate state.etype call port)
  refine { hstate with etype := hstate.etype.step call, path := ?_, arp := ?_ }
  · have hfed := hstate.path.feed (fresh (state.etype.output .ipv4)
      ((RxSplit.step RxSplit.rxSplitByEtype state.etype call).output .ipv4))
    rwa [hsent .ipv4] at hfed
  · have hfed := hstate.arp.feed (fresh (state.etype.output .arp)
      ((RxSplit.step RxSplit.rxSplitByEtype state.etype call).output .arp))
    rwa [hsent .arp] at hfed

theorem step_path (call : IcmpProc.PathCall) :
    Accounted words addresses pps (step addresses state (.path call)) := by
  refine { hstate with path := hstate.path.step call, merge := hstate.merge.feed .second _ ?_ }
  rintro (_ | _)
  · exact (List.append_nil _).symm
  · exact (append_fresh (chain_grows hstate.chain_inv call)).symm

theorem step_arp (call : ArpProc.Call) :
    Accounted words addresses pps (step addresses state (.arp call)) := by
  refine { hstate with arp := hstate.arp.step call, merge := hstate.merge.feed .first _ ?_ }
  rintro (_ | _)
  · exact (append_fresh (arp_grows state.arp call)).symm
  · exact (List.append_nil _).symm

theorem step_merge (call : TxMerge.Call) :
    Accounted words addresses pps (step addresses state (.merge call)) := by
  refine { hstate with
    merge := TxMerge.step_consumed _ call hstate.merge
    merged := ?_ }
  simp only [step]
  rw [← List.append_assoc, ← hstate.merged, append_fresh (merge_grows state.merge call)]

theorem step_transmitter (hideal : scfifo.Ideal words) (padding : BitVec 40)
    (inValid outReady : Bool) :
    Accounted words addresses pps
      (step addresses state (.transmitter padding inValid outReady)) := by
  refine { hstate with
    transmitter := Transmitter.step_accounted hideal _ _ hstate.transmitter
    merged := ?_ }
  have haccepts := state.accepts_offered padding inValid outReady
  simp only [step, Transmitter.step, Converter.step, List.map_append, List.append_assoc]
  exact hstate.merged.trans (congrArg _ haccepts.symm)

end Step

theorem step_accounted (hideal : scfifo.Ideal words) (state : State scfifo) (action : Action)
    (hstate : Accounted words addresses pps state) :
    Accounted words addresses pps (step addresses state action) := by
  cases action with
  | toUlong2 cycle => exact step_toUlong2 hstate cycle
  | etype call => exact step_etype hstate call
  | etypeDsc deliver => exact { hstate with }
  | path call => exact step_path hstate call
  | ipv4protoDsc deliver => exact { hstate with }
  | arp call => exact step_arp hstate call
  | merge call => exact step_merge hstate call
  | transmitter padding inValid outReady =>
      exact step_transmitter hstate hideal padding inValid outReady

theorem run_accounted (hideal : scfifo.Ideal words) (pps : List (BitVec 8))
    (actions : List Action) :
    Accounted words addresses pps (run addresses (start scfifo pps) actions) :=
  foldl_invariant (fun state action => step_accounted hideal state action) actions _
    (start_accounted hideal)

end IcmpServer.Server
