import IcmpServer.IcmpProc.Chain
import IcmpServer.Rtl.Lossless
import IcmpServer.RxSplit.Filters

/-! # The receive path does not stall

A splitter holds a packet back until its route is known, the swaps and the header
checksum hold one beat back until its partner is there, and `in_ready` follows the
queue two cycles late. As long as no write is refused none of this reaches the
input: some register is always free, and with it stage 0 where it is read.
-/

namespace IcmpServer

open Elastic

/-- A call finds stage 0 free where it reads, and takes a beat when one is available. -/
structure Unstalled {α : Type} (stage0 : Option α) (deliver : Bool) (before after : List Beat) :
    Prop where
  free : stage0 = none
  taken : after = if deliver then before.tail else before

/-! ## The splitters -/

namespace RxSplit

variable {Port : Type} [DecidableEq Port] {depth : Nat}

/-- `stage0` as the read stage of a call finds it. -/
def Config.stage0 (config : Config Port depth) (call : Call Port) : Option Beat :=
  (config.routed call).2.1.stage0

/-- While the route is unknown some register is free. -/
def Config.Roomy (config : Config Port depth) : Prop :=
  config.state.outputState = none → config.state.stages.HasRoom

omit [DecidableEq Port] in
/-- Full stages are enough to decide. -/
theorem Router.hasRoom_of_undecided (router : Router Port depth) {stages : Pipeline Beat depth}
    (hundecided : router.update stages = none) : stages.HasRoom := by
  by_contra hfull
  obtain ⟨items, hpacked⟩ := Pipeline.exists_packed hfull
  exact router.decides stages items 0 hpacked (Or.inl rfl) hundecided

theorem step_roomy (router : Router Port depth) (config : Config Port depth) (call : Call Port) :
    (step (splitCall router.update) config call).Roomy := by
  have hcases := config.routed_cases call
  rw [step_eq]
  generalize config.routed call = routed at hcases ⊢
  intro hnone
  cases hcases with
  | hold => exact router.hasRoom_of_undecided hnone
  | wait port hport => simp [hport] at hnone
  | move port beat hport =>
      cases hlast : beat.last with
      | true =>
          simp only [hlast, if_true] at hnone
          exact router.hasRoom_of_undecided hnone
      | false => simp [hlast, hport] at hnone

theorem run_roomy (router : Router Port depth) (input : List Beat) (schedule : List (Call Port)) :
    (run (splitCall router.update) (start Port depth input) schedule).Roomy :=
  foldl_invariant (fun config call _ => step_roomy router config call) schedule _
    fun _ => Pipeline.hasRoom_of_front_none rfl

/-- With every port taking its beat a decided packet moves on, so the routing
stage leaves room as well. -/
theorem Config.Roomy.routed {config : Config Port depth} (hroomy : config.Roomy)
    {call : Call Port} (haccept : ∀ port, call.accept port = true) :
    (config.routed call).2.1.HasRoom := by
  have hcases := config.routed_cases call
  generalize config.routed call = routed at hcases ⊢
  cases hcases with
  | hold hnone => exact hroomy hnone
  | wait port hport hfront =>
      exact Pipeline.hasRoom_of_front_none (hfront (StreamOut.flush_free _ _ (haccept port)))
  | move => exact Pipeline.hasRoom_of_front_none rfl

theorem step_unstalled (router : Router Port depth) {config : Config Port depth}
    (hroomy : config.Roomy) {call : Call Port} (haccept : ∀ port, call.accept port = true) :
    Unstalled (config.stage0 call) call.deliver config.input
      (step (splitCall router.update) config call).input := by
  have hfree : config.stage0 call = none := (hroomy.routed haccept).stage0_eq_none
  exact ⟨hfree, Pipeline.shift_queue hfree ⟨config.input, call.deliver⟩⟩

end RxSplit

/-! ## The ICMP components -/

namespace IcmpProc

variable {σ : Type} {stages : Stages σ} {behind : σ → List IdxBeat} {held partner : BitVec 8}

/-- `stage0` as the input stage of a call finds it. -/
def stage0 (stages : Stages σ) (state : Registers σ) (chDatOut : StreamOut Beat) :
    Option IdxBeat :=
  (stages (chDatOut.flush state.top).1 state.inner state.stage0).2.2

/-- The index that is held back comes right before its partner. -/
def Paired (held partner : BitVec 8) (indices : List (BitVec 8)) : Prop :=
  indices.IsChain fun idx next => idx = held → next = partner

/-- Stages that hold one index back until its partner is there. -/
structure Holding (stages : Stages σ) (behind : σ → List IdxBeat) (held partner : BitVec 8) :
    Prop where
  /-- Beats leave the registers at their front and keep their indices. -/
  suffix : ∀ top inner stage0,
    (behind (stages top inner stage0).2.1 ++ (stages top inner stage0).2.2.toList).map
        IdxBeat.idx <:+ (behind inner ++ stage0.toList).map IdxBeat.idx
  /-- With the highest stage free only a held beat without its partner fills stage 0. -/
  free : ∀ inner stage0, Paired held partner ((behind inner ++ stage0.toList).map IdxBeat.idx) →
    (stages none inner stage0).2.2 = none

theorem SwapField.holding (field : SwapField) :
    Holding field.stages Option.toList field.held field.partner where
  suffix stage2 stage1 stage0 := by
    have hmove := field.stages_move stage2 stage1 stage0
    generalize field.stages stage2 stage1 stage0 = moved at hmove
    cases hmove with
    | full | pull | empty | wait | stuck => exact List.suffix_rfl
    | bypass | swap => simp [List.suffix_cons]
  free stage1 stage0 hpaired := by
    have hmove := field.stages_move none stage1 stage0
    generalize field.stages none stage1 stage0 = moved at hmove
    cases hmove with
    | pull | empty | bypass | swap | wait => rfl
    | stuck first second hheld hpartner =>
        simp only [Paired, Option.toList_some, List.singleton_append, List.map_cons, List.map_nil,
          List.isChain_pair] at hpaired
        exact absurd (hpaired hheld) hpartner

theorem param_holding (held partner : BitVec 8) :
    Holding paramStages (fun _ => []) held partner where
  suffix stage1 _ stage0 := by
    cases stage1 <;> cases stage0 <;> simp [paramStages]
  free _ stage0 _ := by
    cases stage0 <;> rfl

/-- Whatever stage 2 holds, it takes the beat of stage 1 or has sent its own ahead. -/
theorem chksum_stage1_free (checksum : BitVec 24) (stage2 stage1 stage0 : Option IdxBeat)
    (hpaired : Paired 3#8 4#8 ((stage2.toList ++ stage1.toList ++ stage0.toList).map IdxBeat.idx)) :
    (advance (chksumStage3 checksum none stage2 stage1).2 stage1).2 = none := by
  cases stage1 with
  | none => cases (chksumStage3 checksum none stage2 none).2 <;> rfl
  | some second =>
      have hsent : (chksumStage3 checksum none stage2 (some second)).2 = none := by
        cases stage2 with
        | none => rfl
        | some first =>
            by_cases hidx : first.idx = 3#8
            · have hnext : second.idx = 4#8 := hpaired.rel hidx
              simp [chksumStage3, hidx, hnext]
            · simp [chksumStage3, hidx]
      rw [hsent]
      rfl

theorem chksumStage1_append (checksum : BitVec 24) (stage1 stage0 : Option IdxBeat) :
    (chksumStage1 checksum stage1 stage0).2.1.toList ++
        (chksumStage1 checksum stage1 stage0).2.2.toList =
      stage1.toList ++ stage0.toList := by
  cases stage1 <;> cases stage0 <;> rfl

theorem chksum_holding :
    Holding chksumStages (fun inner => inner.stage2.toList ++ inner.stage1.toList) 3#8 4#8 where
  suffix stage3 inner stage0 := by
    simp only [chksumStages_eq]
    rw [List.append_assoc, chksumStage1_append, ← List.append_assoc, advance_append]
    rcases chksumStage3_idle_or_lt inner.checksum stage3 inner.stage2 inner.stage1
      with hidle | hless
    · rw [hidle]
    · have hsent : (chksumStage3 inner.checksum stage3 inner.stage2 inner.stage1).2 = none := by
        generalize (chksumStage3 inner.checksum stage3 inner.stage2 inner.stage1).2 = moved at hless
        cases moved <;> cases hstage2 : inner.stage2 <;> simp [hstage2] at hless ⊢
      rw [hsent]
      simp only [Option.toList_none, List.nil_append, List.append_assoc, List.map_append]
      exact List.suffix_append _ _
  free inner stage0 hpaired := by
    simp only [chksumStages_eq]
    rw [chksum_stage1_free inner.checksum inner.stage2 inner.stage1 stage0 hpaired]
    cases stage0 <;> rfl

/-! ### Runs on packets -/

/-- The indices of the beats behind the highest stage and of those still to be read. -/
def indices (behind : σ → List IdxBeat) (state : Registers σ) (input : List Beat) :
    List (BitVec 8) :=
  (behind state.inner ++ (state.stage0.toList ++ indexed state.idxCounter input)).map IdxBeat.idx

theorem Holding.call_paired (hstages : Holding stages behind held partner) (state : Registers σ)
    (input : StreamIn Beat) (output : StreamOut Beat)
    (hpaired : Paired held partner (indices behind state input.queue)) :
    Paired held partner (indices behind (componentCall stages state input output).1
      (componentCall stages state input output).2.1.queue) := by
  have hread := inputStage_indexed
    (stages (output.flush state.top).1 state.inner state.stage0).2.2 state.idxCounter input []
  simp only [List.append_nil] at hread
  obtain ⟨front, hfront⟩ := hstages.suffix (output.flush state.top).1 state.inner state.stage0
  simp only [componentCall_eq, indices] at hpaired ⊢
  rw [hread]
  rw [← List.append_assoc, List.map_append, ← hfront, List.append_assoc, ← List.map_append,
    List.append_assoc] at hpaired
  exact hpaired.right_of_append

theorem Holding.call_unstalled (hstages : Holding stages behind held partner)
    (state : Registers σ) (input : StreamIn Beat) (output : StreamOut Beat)
    (haccept : output.accept = true)
    (hpaired : Paired held partner (indices behind state input.queue)) :
    Unstalled (stage0 stages state output) input.deliver input.queue
      (componentCall stages state input output).2.1.queue := by
  have hheld : Paired held partner
      ((behind state.inner ++ state.stage0.toList).map IdxBeat.idx) := by
    rw [indices, ← List.append_assoc, List.map_append] at hpaired
    exact hpaired.left_of_append
  have hfree : stage0 stages state output = none := by
    rw [stage0, output.flush_free state.top haccept]
    exact hstages.free state.inner state.stage0 hheld
  refine ⟨hfree, ?_⟩
  have hread : (componentCall stages state input output).2.1 =
      (inputStage (stage0 stages state output) state.idxCounter input).2.2 := rfl
  rw [hread, hfree, ← StreamIn.tryRead_queue, inputStage]
  rcases input.tryRead with ⟨_ | _, _⟩ <;> rfl

/-- The first index of a numbered stream is the counter. -/
theorem eq_of_mem_head?_indexed {idx first : BitVec 8} {input : List Beat}
    (hfirst : first ∈ ((indexed idx input).map IdxBeat.idx).head?) : first = idx := by
  cases input with
  | nil => simp [indexed] at hfirst
  | cons beat rest => simpa [indexed, eq_comm] using hfirst

/-- A packet that goes on behind the held index has its partner next. -/
theorem paired_packet {packet : List Beat} (hpacket : IsPacket Beat.last packet) (start : Nat)
    (hlong : held.toNat + 1 < start + packet.length) (hlength : start + packet.length ≤ 256)
    {rest : List Beat} (hrest : Paired held (held + 1#8) ((indexed 0#8 rest).map IdxBeat.idx)) :
    Paired held (held + 1#8)
      ((indexed (BitVec.ofNat 8 start) (packet ++ rest)).map IdxBeat.idx) := by
  induction hpacket generalizing start with
  | @final beat hlast =>
      simp only [List.length_singleton] at hlong hlength
      simp only [List.singleton_append, indexed, nextIdx, hlast, if_true, List.map_cons]
      refine List.isChain_cons.mpr ⟨?_, hrest⟩
      rintro next - rfl
      rw [BitVec.toNat_ofNat, Nat.mod_eq_of_lt (by omega)] at hlong
      omega
  | @more beat packet hlast hpacket ih =>
      simp only [List.length_cons] at hlong hlength
      have hnext : nextIdx (BitVec.ofNat 8 start) beat = BitVec.ofNat 8 (start + 1) := by
        simp [nextIdx, hlast, BitVec.ofNat_add]
      simp only [List.cons_append, indexed, hnext, List.map_cons]
      refine List.isChain_cons.mpr ⟨?_, ih (start + 1) (by omega) (by omega)⟩
      rintro next hmem rfl
      rw [eq_of_mem_head?_indexed hmem, BitVec.ofNat_add]

theorem paired_packets {packets : List (List Beat)} (hpackets : ∀ packet ∈ packets, Echoable packet)
    (hheld : held.toNat < 4) :
    Paired held (held + 1#8) ((indexed 0#8 packets.flatten).map IdxBeat.idx) := by
  induction packets with
  | nil => exact List.isChain_nil
  | cons packet rest ih =>
      obtain ⟨hpacket, hlong, hlength⟩ := hpackets packet List.mem_cons_self
      rw [List.flatten_cons]
      exact paired_packet hpacket 0 (by omega) (by omega)
        (ih fun other hother => hpackets other (List.mem_cons_of_mem _ hother))

theorem Holding.run_unstalled (hstages : Holding stages behind held (held + 1#8)) (inner : σ)
    (hinner : behind inner = []) (hheld : held.toNat < 4) (packets : List (List Beat))
    (hpackets : ∀ packet ∈ packets, Echoable packet) (schedule : List (Call Unit))
    (call : Call Unit) (haccept : call.accept = true) :
    let component := StageAccount.process stages inner
    let config := component.run (component.start packets.flatten) schedule
    Unstalled (stage0 stages config.state ⟨config.output, call.accept⟩) call.deliver config.input
      (component.step config call).input := by
  intro component config
  have hstart : Paired held (held + 1#8)
      (indices behind (component.start packets.flatten).state packets.flatten) := by
    simpa [component, indices, Process.start, StageAccount.process, hinner]
      using paired_packets hpackets hheld
  have hstep : ∀ (reached : component.Config) (call : Call Unit),
      Paired held (held + 1#8) (indices behind reached.state reached.input) →
        Paired held (held + 1#8) (indices behind (component.step reached call).state
          (component.step reached call).input) :=
    fun reached call => hstages.call_paired reached.state ⟨reached.input, call.deliver⟩
      ⟨reached.output, call.accept⟩
  have hpaired : Paired held (held + 1#8) (indices behind config.state config.input) :=
    foldl_invariant hstep schedule _ hstart
  exact hstages.call_unstalled config.state ⟨config.input, call.deliver⟩ _ haccept hpaired

end IcmpProc

/-! ## The converter in front -/

namespace Rtl

variable {ι ο : Type} (converter : Converter ι ο)

/-- With every beat taken at the output the queue holds at most two words, and two
only when one of them is about to leave. -/
structure ConverterState.Draining (state : ConverterState) : Prop where
  sound : state.Sound
  count : state.fifo.count ≤ 2
  leaving : state.fifo.count = 2 → state.output.queueDataExist = true
  delayed : state.fifo.usedw1d.toNat ≤ 2

theorem reset_draining : ConverterState.reset.Draining :=
  ⟨reset_sound, by decide, by decide, by decide⟩

variable {converter}

namespace ConverterState.Draining

variable {state : ConverterState} (hstate : state.Draining)
include hstate

theorem clock {cycle : Cycle ι} (hready : cycle.outReady = true) :
    (converter.clock state cycle).Draining := by
  have hpop : state.output.queuePop cycle.outReady = state.output.queueDataExist := by
    rw [hstate.sound.output.queuePop_eq, hready]
    simp
  have hcount : (converter.clock state cycle).fifo.count =
      state.fifo.count + (cycle.inValid && state.inReady).toNat -
        state.output.queueDataExist.toNat := by
    rw [← hpop]
    exact hstate.sound.count_clock _ _ _
  have hnext : (converter.clock state cycle).output.queueDataExist =
      (!state.fifo.empty && (!state.fifo.aempty || !state.output.queueDataExist)) := by
    rw [← hpop]
    rfl
  have hbound := hstate.count
  have hleaving := hstate.leaving
  have hexist := hstate.sound.exist
  have hwrote : (cycle.inValid && state.inReady).toNat ≤ 1 := Bool.toNat_le _
  -- the flag lags one cycle behind a lone word, and a second one finds it set
  refine ⟨clock_sound converter hstate.sound cycle, ?_, ?_, hbound⟩
  · cases hflag : state.output.queueDataExist <;> simp [hflag] at hcount hleaving hexist <;> omega
  · intro htwo
    simp only [hnext, Bool.and_eq_true, Bool.or_eq_true, Bool.not_eq_true', ← Bool.not_eq_true,
      Fifo80x8.empty_eq_true, Fifo80x8.aempty_eq_true]
    cases hflag : state.output.queueDataExist <;> simp [hflag] at hcount hleaving hexist ⊢ <;> omega

/-- `in_ready` follows the occupancy, which stays far below five words. -/
theorem inReady_clock (cycle : Cycle ι) : (converter.clock state cycle).inReady = true := by
  have hdelayed := hstate.delayed
  have hfew : ¬ 5#4 ≤ state.fifo.usedw1d := by
    rw [BitVec.le_def, BitVec.toNat_ofNat]
    omega
  simp [Converter.clock, hfew]

end ConverterState.Draining

theorem run_draining (cycles : List (Cycle ι)) (hready : ∀ cycle ∈ cycles, cycle.outReady = true) :
    (converter.run cycles).state.Draining := by
  induction cycles using List.reverseRecOn with
  | nil => exact reset_draining
  | append_singleton front cycle ih =>
      have hfront := ih fun other hother => hready other (List.mem_append_left _ hother)
      rw [Converter.run, List.foldl_append]
      exact hfront.clock (hready cycle (by simp))

theorem run_inReady (cycles : List (Cycle ι)) (hready : ∀ cycle ∈ cycles, cycle.outReady = true)
    (hne : cycles ≠ []) : (converter.run cycles).state.inReady = true := by
  obtain ⟨front, cycle, rfl⟩ := (List.eq_nil_or_concat' cycles).resolve_left hne
  have hfront : (converter.run front).state.Draining :=
    run_draining front fun other hother => hready other (List.mem_append_left _ hother)
  rw [Converter.run, List.foldl_append]
  exact hfront.inReady_clock cycle

end Rtl

/-! ## The receive path -/

namespace Receive

open RxSplit IcmpProc Rtl

/-- Every call of a splitter whose writes are not refused, in any run on packets of any length,
finds stage 0 free and reads. -/
def SplitterReads {Port : Type} [DecidableEq Port] {depth : Nat}
    (component : Component Port depth) : Prop :=
  ∀ (input : List Beat) (schedule : List (RxSplit.Call Port)) (call : RxSplit.Call Port),
    (∀ port, call.accept port = true) →
    let config := RxSplit.run component (RxSplit.start Port depth input) schedule
    Unstalled (config.stage0 call) call.deliver config.input
      (RxSplit.step component config call).input

/-- The same for a component of the ICMP chain on packets that the chain is built for. -/
def ComponentReads (component : Process Unit Beat Beat)
    (stage0 : component.State → StreamOut Beat → Option IdxBeat) : Prop :=
  ∀ packets : List (List Beat), (∀ packet ∈ packets, Echoable packet) →
    ∀ (schedule : List (Elastic.Call Unit)) (call : Elastic.Call Unit), call.accept = true →
    let config := component.run (component.start packets.flatten) schedule
    Unstalled (stage0 config.state ⟨config.output, call.accept⟩) call.deliver config.input
      (component.step config call).input

/-- The receive path creates no back-pressure: calls whose writes are not refused always
read, and while its output is ready `l8_to_ulong2` is ready from the first clock edge on. -/
theorem receive_unstalled :
    SplitterReads rxSplitByEtype ∧ SplitterReads rxSplitByIpv4proto ∧
      ComponentReads swapmac (stage0 macField.stages) ∧
      ComponentReads swapip (stage0 ipField.stages) ∧
      ComponentReads param (stage0 paramStages) ∧
      ComponentReads ipv4chksum (stage0 chksumStages) ∧
      ∀ cycles : List (Rtl.Cycle L8Beat), (∀ cycle ∈ cycles, cycle.outReady = true) → cycles ≠ [] →
        (l8ToUlong2.run cycles).state.inReady = true := by
  refine ⟨?_, ?_, ?_, ?_, ?_, ?_, run_inReady⟩
  · intro input schedule call haccept
    exact step_unstalled etypeRouter (run_roomy etypeRouter input schedule) haccept
  · intro input schedule call haccept
    exact step_unstalled ipv4protoRouter (run_roomy ipv4protoRouter input schedule) haccept
  · exact macField.holding.run_unstalled none rfl (by decide)
  · exact ipField.holding.run_unstalled none rfl (by decide)
  · exact (param_holding 0#8 1#8).run_unstalled () rfl (by decide)
  · exact chksum_holding.run_unstalled {} rfl (by decide)

theorem receive_unstalled_test :
    (∀ packet ∈ [testIcmpReq], Echoable packet) ∧
      (∀ (schedule : List (Elastic.Call Unit)) (call : Elastic.Call Unit), call.accept = true →
        let config := swapip.run (swapip.start [testIcmpReq].flatten) schedule
        Unstalled (stage0 ipField.stages config.state ⟨config.output, call.accept⟩) call.deliver
          config.input (swapip.step config call).input) ∧
      (l8ToUlong2.run [⟨⟨0#64, true, true, 0#3⟩, true, true⟩]).state.inReady = true := by
  have hrequest : ∀ packet ∈ [testIcmpReq], Echoable packet := by
    unfold Echoable
    decide
  obtain ⟨-, -, -, hswapip, -, -, hready⟩ := receive_unstalled
  exact ⟨hrequest, hswapip [testIcmpReq] hrequest, hready _ (by simp) (by simp)⟩

end Receive

end IcmpServer
