import IcmpServer.ArpProc.Resting
import IcmpServer.Elastic.Fairness
import IcmpServer.Rtl.Delivery
import IcmpServer.Server.Bounds

/-! # The server settles

Once the MAC delivers nothing more, the components run empty one after the other, in
the order of the packet path. A component behind which nothing comes any more leaves
those behind it alone.
-/

namespace IcmpServer.Server

open Elastic Rtl Transmit Receive

variable {scfifo : Scfifo} (words : scfifo.State → List (BitVec 80))
  (addresses : ArpProc.Addresses) (pps : List (BitVec 8)) (stream : List (List L8Beat))

/-- The MAC delivers nothing. -/
def Undisturbed : Action → Prop
  | .toUlong2 cycle => cycle.inValid = false
  | _ => True

/-! ## The components, one after the other -/

/-- The stream has come in. -/
structure Arrived (state : State scfifo) : Prop where
  accounted : Accounted words addresses pps state
  accepted : state.toUlong2.accepted = stream.flatten

structure Converted (state : State scfifo) : Prop extends
    Arrived words addresses pps stream state where
  held : state.toUlong2.state.held = 0

structure Split (state : State scfifo) : Prop extends
    Converted words addresses pps stream state where
  etype : state.etype.Drained

structure Filtered (state : State scfifo) : Prop extends
    Split words addresses pps stream state where
  splitter : state.path.splitter.Drained

structure Echoed (state : State scfifo) : Prop extends
    Filtered words addresses pps stream state where
  chain : state.path.chain.output = (IcmpProc.passed (icmpOf stream)).flatten

structure Rested (state : State scfifo) : Prop extends
    Echoed words addresses pps stream state where
  arp : state.arp.work = 0

structure Merged (state : State scfifo) : Prop extends
    Rested words addresses pps stream state where
  merge : state.merge.Drained

/-- While the packet buffer refuses input it has a packet to send. -/
structure Sending (state : State scfifo) : Prop extends
    Merged words addresses pps stream state where
  ends : state.transmitter.pktBuf.state.fromL8Ready = false →
    0 < state.transmitter.pktBuf.state.ends words

/-- All has come out. -/
structure Settled (state : State scfifo) : Prop extends
    Sending words addresses pps stream state where
  transferred : state.transmitter.pktBuf.transferred = state.merge.output.map onWire

variable {words addresses pps stream} {state : State scfifo}

/-! ## Nothing more behind an empty component -/

theorem fresh_self (written : List Beat) : fresh written written = [] :=
  List.drop_length

theorem feed_nil {Port : Type} {depth : Nat} (config : RxSplit.Config Port depth) :
    RxSplit.feed config [] = config := by
  rw [RxSplit.feed, List.append_nil]

theorem Converted.step_toUlong2 (hstate : Converted words addresses pps stream state)
    {cycle : Rtl.Cycle L8Beat} (hquiet : cycle.inValid = false) :
    (l8ToUlong2.step state.toUlong2 cycle).state.held = 0 ∧
      (l8ToUlong2.step state.toUlong2 cycle).transferred = state.toUlong2.transferred := by
  have hheld := held_clock l8ToUlong2 hstate.accounted.toUlong2.sound cycle
  rw [hquiet, hstate.held, Bool.false_and] at hheld
  have hnone : state.toUlong2.state.output.outValid = false := by
    have hzero := hstate.held
    rw [ConverterState.held] at hzero
    exact Bool.toNat_eq_zero.mp (by omega)
  refine ⟨Nat.eq_zero_of_add_eq_zero_right (hheld.trans rfl), ?_⟩
  simp [Converter.step, OutputStage.transfers, hnone]

theorem Converted.step_etype_eq (hstate : Converted words addresses pps stream state)
    {cycle : Rtl.Cycle L8Beat} (hquiet : cycle.inValid = false) :
    (step addresses state (.toUlong2 cycle)).etype = state.etype := by
  simp only [step]
  rw [(hstate.step_toUlong2 hquiet).2, fresh_self, feed_nil]

theorem Split.step_etype (hstate : Split words addresses pps stream state)
    (call : RxSplit.Call RxSplit.Etype) :
    (step addresses state (.etype call)).path = state.path ∧
      (step addresses state (.etype call)).arp = state.arp := by
  have hsame : ∀ port, (RxSplit.step RxSplit.rxSplitByEtype state.etype call).output port =
      state.etype.output port :=
    RxSplit.step_output_of_drained RxSplit.etypeUpdate state.etype call hstate.etype
  have hnone : ∀ port, fresh (state.etype.output port)
      ((RxSplit.step RxSplit.rxSplitByEtype state.etype call).output port) = [] := by
    intro port
    rw [hsame, fresh_self]
  constructor
  · simp only [step, hnone, IcmpProc.feedPath, feed_nil]
  · simp only [step, hnone, ArpProc.feed, List.append_nil]

theorem Filtered.step_chain (hstate : Filtered words addresses pps stream state)
    (call : RxSplit.Call RxSplit.Ipv4Proto) :
    (IcmpProc.pathStep state.path (.split call)).chain = state.path.chain := by
  have hsame : (RxSplit.step RxSplit.rxSplitByIpv4proto state.path.splitter call).output .icmp =
      state.path.splitter.output .icmp :=
    RxSplit.step_output_of_drained RxSplit.ipv4protoUpdate state.path.splitter call
      hstate.splitter .icmp
  simp only [IcmpProc.pathStep, hsame, List.drop_length, List.append_nil]

/-! ## What has come out of an empty component -/

theorem Converted.transferred_eq (hstate : Converted words addresses pps stream state) :
    state.toUlong2.transferred.map unpack = (received stream).flatten := by
  rw [hstate.accounted.toUlong2.transferred_eq hstate.held, hstate.accepted, List.map_map,
    flatten_received]
  rfl

theorem Converted.etype_accounted (hstate : Converted words addresses pps stream state) :
    RxSplit.Accounted RxSplit.etypeRouter (received stream).flatten state.etype := by
  have hsplit := RxSplit.reached_accounted hstate.accounted.etype []
  rwa [feed_nil, List.append_nil, hstate.transferred_eq] at hsplit

section Stream

variable (hstream : ∀ packet ∈ stream, IsPacket L8Beat.endofpacket packet)
include hstream

theorem Split.etype_output_eq (hstate : Split words addresses pps stream state)
    (port : RxSplit.Etype) : state.etype.output port = (ofEtype port stream).flatten := by
  have houtput := hstate.etype_accounted.output_eq hstate.etype port
  rwa [packets_flatten _ (received_isPacket hstream)] at houtput

theorem Split.path_accounted (hstate : Split words addresses pps stream state) :
    IcmpProc.PathAccounted (ofEtype .ipv4 stream).flatten state.path := by
  have hpath := hstate.accounted.pathAccounted []
  rw [List.append_nil, hstate.etype_output_eq hstream, IcmpProc.feedPath, feed_nil] at hpath
  exact hpath

/-- All that the chain will ever write. -/
theorem Filtered.chain_accounted (hstate : Filtered words addresses pps stream state) :
    IcmpProc.icmpProcAccount.Accounted (IcmpProc.passed (icmpOf stream)).flatten
      state.path.chain := by
  have hpath := hstate.toSplit.path_accounted hstream
  have hicmp := hpath.splitter.output_eq hstate.splitter .icmp
  have hpackets : ∀ packet ∈ ofEtype .ipv4 stream, IsPacket Beat.last packet :=
    fun packet hmem => received_isPacket hstream packet (List.mem_filter.mp hmem).1
  rw [packets_flatten _ hpackets] at hicmp
  refine ⟨hpath.inv, ?_⟩
  have hwritten := hpath.written []
  rw [List.append_nil, List.append_nil, hicmp] at hwritten
  rw [hwritten, IcmpProc.icmpProcAccount_computes]
  exact IcmpProc.chain_passed (icmpOf_isPacket hstream) 0#24

end Stream

/-- At rest `arp_proc` has written complete frames. -/
theorem framed_of_rest {config : ArpProc.Config} (hconfig : ArpProc.Accounted addresses config)
    (hrest : config.work = 0) : Framed Beat.last config.output := by
  have hlength := hconfig.length_of_rest hrest
  have hframed := hconfig.sending.framed.of_isPrefix (List.prefix_append _ _)
  apply Framed.of_getLast?
  intro beat hbeat
  rw [List.getLast?_eq_getElem?] at hbeat
  obtain ⟨frame, hframe, hpart⟩ := hframed _ beat hbeat
  have hinside := (List.getElem?_eq_some_iff.mp hframe).1
  have hoffset : (config.output.length - 1) % 6 = 5 := by omega
  rw [hoffset] at hpart
  rw [last_of_emits addresses (by decide) hpart]
  rfl

theorem passed_eq {packets : List (List Beat)}
    (hpasses : ∀ packet ∈ packets, ¬ IcmpProc.Wedges packet) :
    IcmpProc.passed packets = packets.map IcmpProc.echoed := by
  induction packets with
  | nil => rfl
  | cons packet rest ih =>
      rw [IcmpProc.passed, if_neg (hpasses packet List.mem_cons_self),
        ih fun other hother => hpasses other (List.mem_cons_of_mem _ hother), List.map_cons]

section Passes

variable (hstream : ∀ packet ∈ stream, IsPacket L8Beat.endofpacket packet)
  (hpasses : ∀ packet ∈ icmpOf stream, ¬ IcmpProc.Wedges packet)
include hstream hpasses

theorem echoes_isPacket :
    ∀ packet ∈ (icmpOf stream).map IcmpProc.echoed, IsPacket Beat.last packet := by
  intro packet hpacket
  obtain ⟨source, hsource, rfl⟩ := List.mem_map.mp hpacket
  exact IcmpProc.echoed_isPacket (icmpOf_isPacket hstream source hsource) (hpasses source hsource)

theorem Rested.merge_accounted (hstate : Rested words addresses pps stream state) :
    TxMerge.Accounted state.arp.output ((icmpOf stream).map IcmpProc.echoed).flatten
      state.merge := by
  have harp := framed_of_rest (ArpProc.reached_accounted hstate.accounted.arp) hstate.arp
  have hchain : state.path.chain.output = ((icmpOf stream).map IcmpProc.echoed).flatten := by
    rw [hstate.chain, passed_eq hpasses]
  have hgiven : ∀ lane, Framed Beat.last (state.given lane) := by
    rintro (_ | _)
    · exact harp
    · have hframed := Framed.flatten _ (echoes_isPacket hstream hpasses)
      rwa [← hchain] at hframed
  rw [← hchain]
  exact hstate.accounted.merge.accounted hgiven

/-- What has been merged: all ARP frames and all echoes. -/
theorem Merged.output_eq (hstate : Merged words addresses pps stream state) :
    ∃ frames merged, state.arp.output = frames.flatten ∧
      (∀ frame ∈ frames, IsPacket Beat.last frame) ∧
      Interleaves frames ((icmpOf stream).map IcmpProc.echoed) merged ∧
      state.merge.output = merged.flatten := by
  have harp := framed_of_rest (ArpProc.reached_accounted hstate.accounted.arp) hstate.arp
  obtain ⟨merged, hmerged, houtput⟩ :=
    (hstate.merge_accounted hstream hpasses).output_merge hstate.merge
  rw [packets_flatten _ (echoes_isPacket hstream hpasses)] at hmerged
  exact ⟨packets Beat.last state.arp.output, merged, (flatten_packets _ _).symm, harp, hmerged,
    houtput⟩

end Passes

/-! ## Nothing more is merged -/

theorem merge_feed_nil (config : TxMerge.Config) (lane : Lane) :
    TxMerge.feed config lane [] = config := by
  cases lane <;> simp [TxMerge.feed]

theorem Rested.step_merge_eq (hstate : Rested words addresses pps stream state)
    (hstream : ∀ packet ∈ stream, IsPacket L8Beat.endofpacket packet) (action : Action)
    (hother : ∀ call, action ≠ .merge call) :
    (step addresses state action).merge = state.merge := by
  cases action with
  | merge call => exact absurd rfl (hother call)
  | path call =>
      have hsame : (IcmpProc.pathStep state.path call).chain.output = state.path.chain.output := by
        cases call with
        | split call => rw [hstate.step_chain]
        | chain call =>
            have hcomplete := IcmpProc.icmpProcAccount.step_complete state.path.chain call
              (hstate.chain_accounted hstream) hstate.chain
            exact hcomplete.trans hstate.chain.symm
      simp only [step, hsame, fresh_self, merge_feed_nil]
  | arp call =>
      have hsame := ((ArpProc.reached_accounted hstate.accounted.arp).step_rest hstate.arp call).2
      simp only [step, hsame, fresh_self, merge_feed_nil]
  | _ => rfl

theorem step_output_of_drained {config : TxMerge.Config} (call : TxMerge.Call)
    (hdrained : config.Drained) : (TxMerge.step config call).output = config.output := by
  have hlater := TxMerge.step_drained config call hdrained
  have hsent : (TxMerge.step config call).sent = config.sent := by
    cases TxMerge.step_effect config call with
    | arp beat _ harp => simp [hdrained.arp] at harp
    | ipv4 beat _ hipv4 => simp [hdrained.ipv4] at hipv4
    | stay _ _ hsent _ => exact hsent
  simpa [TxMerge.Config.sent, hdrained.stage1, hlater.stage1] using hsent

/-! ## What allowed steps keep -/

section Lasts

variable (hideal : scfifo.Ideal words)
include hideal

theorem arrived_lasts :
    Lasting (step addresses) Undisturbed
      fun state : State scfifo => Arrived words addresses pps stream state := by
  intro state action hquiet hstate
  refine ⟨step_accounted hideal state action hstate.accounted, ?_⟩
  cases action with
  | toUlong2 cycle =>
      have hnone : cycle.inValid = false := hquiet
      simp [step, Converter.step, Converter.accepts, hnone, hstate.accepted]
  | _ => exact hstate.accepted

theorem converted_lasts :
    Lasting (step addresses) Undisturbed (Converted words addresses pps stream) := by
  intro state action hquiet hstate
  refine ⟨arrived_lasts hideal state action hquiet hstate.toArrived, ?_⟩
  cases action with
  | toUlong2 cycle => exact (hstate.step_toUlong2 hquiet).1
  | _ => exact hstate.held

theorem split_lasts : Lasting (step addresses) Undisturbed (Split words addresses pps stream) := by
  intro state action hquiet hstate
  refine ⟨converted_lasts hideal state action hquiet hstate.toConverted, ?_⟩
  cases action with
  | toUlong2 cycle => exact hstate.step_etype_eq hquiet ▸ hstate.etype
  | etype call => exact RxSplit.step_drained RxSplit.etypeUpdate state.etype call hstate.etype
  | _ => exact hstate.etype

theorem filtered_lasts :
    Lasting (step addresses) Undisturbed (Filtered words addresses pps stream) := by
  intro state action hquiet hstate
  refine ⟨split_lasts hideal state action hquiet hstate.toSplit, ?_⟩
  cases action with
  | etype call => exact (hstate.step_etype call).1 ▸ hstate.splitter
  | path call =>
      cases call with
      | split call =>
          exact RxSplit.step_drained RxSplit.ipv4protoUpdate state.path.splitter call
            hstate.splitter
      | chain call => exact hstate.splitter
  | _ => exact hstate.splitter

variable (hstream : ∀ packet ∈ stream, IsPacket L8Beat.endofpacket packet)
include hstream

theorem echoed_lasts :
    Lasting (step addresses) Undisturbed (Echoed words addresses pps stream) := by
  intro state action hquiet hstate
  refine ⟨filtered_lasts hideal state action hquiet hstate.toFiltered, ?_⟩
  cases action with
  | etype call => exact (hstate.step_etype call).1 ▸ hstate.chain
  | path call =>
      cases call with
      | split call =>
          exact (congrArg Process.Config.output (hstate.step_chain call)).trans hstate.chain
      | chain call =>
          exact IcmpProc.icmpProcAccount.step_complete state.path.chain call
            (hstate.chain_accounted hstream) hstate.chain
  | _ => exact hstate.chain

theorem rested_lasts :
    Lasting (step addresses) Undisturbed (Rested words addresses pps stream) := by
  intro state action hquiet hstate
  refine ⟨echoed_lasts hideal hstream state action hquiet hstate.toEchoed, ?_⟩
  cases action with
  | etype call => exact (hstate.step_etype call).2 ▸ hstate.arp
  | arp call =>
      exact ((ArpProc.reached_accounted hstate.accounted.arp).step_rest hstate.arp call).1
  | _ => exact hstate.arp

theorem merged_lasts :
    Lasting (step addresses) Undisturbed (Merged words addresses pps stream) := by
  intro state action hquiet hstate
  refine ⟨rested_lasts hideal hstream state action hquiet hstate.toRested, ?_⟩
  by_cases hmerge : ∃ call, action = .merge call
  · obtain ⟨call, rfl⟩ := hmerge
    exact TxMerge.step_drained state.merge call hstate.merge
  · rw [hstate.step_merge_eq hstream action (not_exists.mp hmerge)]
    exact hstate.merge

end Lasts

end IcmpServer.Server
