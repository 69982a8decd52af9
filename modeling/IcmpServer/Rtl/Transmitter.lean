import IcmpServer.Elastic.Packets
import IcmpServer.Rtl.Lossless
import IcmpServer.Rtl.StoreForward

/-! # The converter in front of the packet buffer

`ulong2_to_l8` and `l8_pkt_buf` are wired to each other without a queue in between
and run on one clock: what one offers the other is offered, and the ready of one is
the ready the other sees. The transmit MAC gets the converted beats in order, and
none of a packet whose end has not arrived.
-/

namespace IcmpServer.Rtl

open Elastic

/-- The two circuits with what each has accepted and transferred since reset. -/
structure Transmitter (scfifo : Scfifo) where
  toL8 : ConverterConfig (BitVec 128) L8Beat
  pktBuf : PktBufConfig scfifo

namespace Transmitter

variable {scfifo : Scfifo} {words : scfifo.State → List (BitVec 80)}

def start (scfifo : Scfifo) : Transmitter scfifo :=
  ⟨⟨ConverterState.reset, [], []⟩, PktBuf.start scfifo⟩

/-- `enet_ulong2_to_l8_p0.out` as `enet_l8_pkt_buf_p0.pkt_in` sees it. -/
def pktIn (transmitter : Transmitter scfifo) (toL8Ready : Bool) : Cycle L8Beat :=
  ⟨ulong2ToL8.outData transmitter.toL8.state.output.stage0,
    transmitter.toL8.state.output.outValid, toL8Ready⟩

/-- One clock edge. `outReady` is the ready of the MAC. -/
def step (transmitter : Transmitter scfifo) (cycle : Cycle (BitVec 128)) :
    Transmitter scfifo where
  toL8 := ulong2ToL8.step transmitter.toL8
    { cycle with outReady := transmitter.pktBuf.state.fromL8Ready }
  pktBuf := PktBuf.step transmitter.pktBuf (transmitter.pktIn cycle.outReady)

/-- Any number of clock cycles. -/
def run (transmitter : Transmitter scfifo) (cycles : List (Cycle (BitVec 128))) :
    Transmitter scfifo :=
  cycles.foldl step transmitter

/-- What holds of every configuration reached from reset. -/
structure Accounted (words : scfifo.State → List (BitVec 80))
    (transmitter : Transmitter scfifo) : Prop where
  toL8 : ulong2ToL8.Accounted transmitter.toL8
  pktBuf : PktBuf.Accounted words transmitter.pktBuf
  /-- The buffer accepts what the converter transfers. -/
  wired : transmitter.pktBuf.accepted = transmitter.toL8.transferred
  released : Released L8Beat.endofpacket transmitter.pktBuf.accepted
    transmitter.pktBuf.transferred

/-- A beat is transferred by the converter when it is accepted by the buffer. -/
theorem accepts_pktIn (transmitter : Transmitter scfifo) (toL8Ready : Bool) :
    transmitter.pktBuf.state.accepts (transmitter.pktIn toL8Ready) =
      (transmitter.toL8.state.output.transfers transmitter.pktBuf.state.fromL8Ready).map
        ulong2ToL8.outData := by
  unfold PktBufState.accepts OutputStage.transfers pktIn
  split_ifs <;> rfl

/-- A clock edge releases a beat only behind its packet's end. -/
theorem step_released {config : PktBufConfig scfifo} (hconfig : PktBuf.Accounted words config)
    (hreleased : Released L8Beat.endofpacket config.accepted config.transferred)
    (cycle : Cycle L8Beat) :
    Released L8Beat.endofpacket (PktBuf.step config cycle).accepted
      (PktBuf.step config cycle).transferred := by
  apply Released.append
  cases htransfer : (config.state.output.outValid && cycle.outReady) with
  | false =>
      simp only [PktBuf.step, OutputStage.transfers, htransfer, Bool.false_eq_true, if_false,
        List.append_nil]
      exact hreleased
  | true =>
      obtain ⟨rest, haccepted, hend⟩ :=
        hconfig.packet_accepted (Bool.and_eq_true_iff.mp htransfer).1
      simp only [PktBuf.step, OutputStage.transfers, htransfer, if_true]
      refine ⟨rest, by rw [haccepted, List.append_assoc]; rfl, ?_⟩
      intro front item hsent
      obtain rfl : config.state.output.stage0 = item :=
        (List.cons.inj (List.append_inj' hsent rfl).2).1
      exact hend

variable (hideal : scfifo.Ideal words)
include hideal

theorem start_accounted : Accounted words (start scfifo) where
  toL8 := reset_accounted ulong2ToL8
  pktBuf := PktBuf.start_accounted hideal
  wired := rfl
  released := Released.nil _ _

theorem step_accounted (transmitter : Transmitter scfifo) (cycle : Cycle (BitVec 128))
    (haccounted : Accounted words transmitter) :
    Accounted words (transmitter.step cycle) where
  toL8 := Rtl.step_accounted ulong2ToL8 _ _ haccounted.toL8
  pktBuf := PktBuf.step_accounted hideal _ _ haccounted.pktBuf
  wired := by
    have hbeat := transmitter.accepts_pktIn cycle.outReady
    simp only [step, PktBuf.step, Converter.step]
    rw [hbeat, haccounted.wired]
  released := step_released haccounted.pktBuf haccounted.released _

theorem run_accounted (cycles : List (Cycle (BitVec 128))) (transmitter : Transmitter scfifo)
    (haccounted : Accounted words transmitter) : Accounted words (transmitter.run cycles) :=
  foldl_invariant (fun transmitter cycle => step_accounted hideal transmitter cycle) cycles _
    haccounted

end Transmitter

end IcmpServer.Rtl
