import IcmpServer.Receive.Padding
import IcmpServer.Rtl.Transmitter
import IcmpServer.Server.Feeding
import IcmpServer.TxMerge.Lanes

/-! # The server

The components between the receive and the transmit side of the MAC, connected as
in `system.qsys`. Every component is called on its own, in any order; what one has
written and another has not read is on its way between them.
-/

namespace IcmpServer.Server

open Elastic Rtl Transmit

/-! ## Words between tx_merge and ulong2_to_l8 -/

/-- A beat as `tx_merge` puts it on the 128-bit stream, with anything in the padding. -/
def pack (padding : BitVec 40) (beat : Beat) : BitVec 128 :=
  padding ++ beat.empty ++ beat.eop ++ beat.sop ++ beat.data

theorem getLsbD_pack (padding : BitVec 40) (beat : Beat) (bit : Nat) :
    (pack padding beat).getLsbD bit =
      if bit < 64 then beat.data.getLsbD bit
      else if bit < 72 then beat.sop.getLsbD (bit - 64)
      else if bit < 80 then beat.eop.getLsbD (bit - 72)
      else if bit < 88 then beat.empty.getLsbD (bit - 80)
      else padding.getLsbD (bit - 88) := by
  have hpack : (pack padding beat).getLsbD bit = BitVec.getLsbD (w := 40 + 8 + 8 + 8 + 64)
      (padding ++ beat.empty ++ beat.eop ++ beat.sop ++ beat.data) bit := rfl
  rw [hpack]
  simp only [BitVec.getLsbD_append]
  grind

/-- The padding is not read. -/
theorem unpack_pack (padding : BitVec 40) (beat : Beat) : unpack (pack padding beat) = beat := by
  obtain ⟨data, sop, eop, empty⟩ := beat
  simp only [unpack, Beat.mk.injEq]
  refine ⟨?_, ?_, ?_, ?_⟩ <;>
  · apply BitVec.eq_of_getLsbD_eq
    intro bit hbit
    rw [BitVec.getLsbD_extractLsb', getLsbD_pack]
    grind

/-! ## State and steps -/

/-- The components with what they have written, and the beats on their way to those
that keep no account of their input. -/
structure State (scfifo : Scfifo) where
  /-- `enet_l8_to_ulong2_p0`, behind `enet_10gmac_r0.avalon_st_rx`. -/
  toUlong2 : ConverterConfig L8Beat (BitVec 128)
  /-- `enet_rx_split_by_etype_p0`. -/
  etype : RxSplit.Config RxSplit.Etype 2
  /-- Written for `enet_rx_split_etype_dsc_p0`. -/
  etypeDsc : List Beat
  /-- `enet_rx_split_by_ipv4proto_p0` and the four components behind its ICMP port. -/
  path : IcmpProc.PathConfig
  /-- Written for `enet_rx_split_ipv4proto_dsc_p0`. -/
  ipv4protoDsc : List Beat
  /-- `enet_arp_proc_p0`. -/
  arp : ArpProc.Config
  /-- `enet_tx_merge_p0`. -/
  merge : TxMerge.Config
  /-- Written for `enet_ulong2_to_l8_p0`. -/
  merged : List Beat
  /-- `enet_ulong2_to_l8_p0` and `enet_l8_pkt_buf_p0`, in front of
  `enet_10gmac_r0.avalon_st_tx`. -/
  transmitter : Transmitter scfifo

/-- A clock edge of a circuit or a call of a component. -/
inductive Action
  | toUlong2 (cycle : Rtl.Cycle L8Beat)
  | etype (call : RxSplit.Call RxSplit.Etype)
  | etypeDsc (deliver : Bool)
  | path (call : IcmpProc.PathCall)
  | ipv4protoDsc (deliver : Bool)
  | arp (call : ArpProc.Call)
  | merge (call : TxMerge.Call)
  | transmitter (padding : BitVec 40) (inValid outReady : Bool)

/-- What was written behind what had been written before. -/
def fresh (before after : List Beat) : List Beat :=
  after.drop before.length

variable {scfifo : Scfifo} (addresses : ArpProc.Addresses)

/-- Before the first call, with all PPS pulses there will be. -/
def start (scfifo : Scfifo) (pps : List (BitVec 8)) : State scfifo where
  toUlong2 := ⟨ConverterState.reset, [], []⟩
  etype := RxSplit.start RxSplit.Etype 2 []
  etypeDsc := []
  path := IcmpProc.pathStart []
  ipv4protoDsc := []
  arp := ArpProc.start [] pps
  merge := TxMerge.start [] []
  merged := []
  transmitter := Transmitter.start scfifo

/-- The inputs of `enet_ulong2_to_l8_p0` at a clock edge. -/
def offered (state : State scfifo) (padding : BitVec 40) (inValid outReady : Bool) :
    Rtl.Cycle (BitVec 128) :=
  ⟨pack padding (state.merged.headD ArpProc.zeroBeat), inValid && !state.merged.isEmpty, outReady⟩

def step (state : State scfifo) : Action → State scfifo
  | .toUlong2 cycle =>
      let toUlong2 := l8ToUlong2.step state.toUlong2 cycle
      let sent := fresh (state.toUlong2.transferred.map unpack) (toUlong2.transferred.map unpack)
      { state with toUlong2, etype := RxSplit.feed state.etype sent }
  | .etype call =>
      let etype := RxSplit.step RxSplit.rxSplitByEtype state.etype call
      let sent := fun port => fresh (state.etype.output port) (etype.output port)
      { state with
        etype
        etypeDsc := state.etypeDsc ++ sent .other
        path := IcmpProc.feedPath state.path (sent .ipv4)
        arp := ArpProc.feed state.arp (sent .arp) }
  | .etypeDsc deliver =>
      { state with etypeDsc := (RxSplit.rxSplitDiscard ⟨state.etypeDsc, deliver⟩).queue }
  | .path call =>
      let path := IcmpProc.pathStep state.path call
      let other := fresh (state.path.splitter.output .other) (path.splitter.output .other)
      let sent := fresh state.path.chain.output path.chain.output
      { state with
        path
        ipv4protoDsc := state.ipv4protoDsc ++ other
        merge := TxMerge.feed state.merge .second sent }
  | .ipv4protoDsc deliver =>
      { state with ipv4protoDsc := (RxSplit.rxSplitDiscard ⟨state.ipv4protoDsc, deliver⟩).queue }
  | .arp call =>
      let arp := ArpProc.step addresses state.arp call
      let sent := fresh state.arp.output arp.output
      { state with arp, merge := TxMerge.feed state.merge .first sent }
  | .merge call =>
      let merge := TxMerge.step state.merge call
      { state with merge, merged := state.merged ++ fresh state.merge.output merge.output }
  | .transmitter padding inValid outReady =>
      let cycle := offered state padding inValid outReady
      { state with
        merged := state.merged.drop (Converter.accepts state.transmitter.toL8.state cycle).length
        transmitter := state.transmitter.step cycle }

/-- Any finite schedule. -/
def run (state : State scfifo) (actions : List Action) : State scfifo :=
  actions.foldl (step addresses) state

end IcmpServer.Server
