import IcmpServer.Elastic.Stream
import IcmpServer.Hls.Beat

/-! # The transmit merger

One call of `tx_merge`, section by section in the order of the source.
-/

namespace IcmpServer.TxMerge

open Elastic

/-- `PORT_SELECT_IDLE`, `PORT_SELECT_ARP` and `PORT_SELECT_IPV4`. -/
inductive PortSelect
  | idle
  | arp
  | ipv4
deriving DecidableEq, Repr

/-- Static registers of `tx_merge`. -/
structure MergeState where
  stage1 : Option Beat := none
  stage0Arp : Option Beat := none
  stage0Ipv4 : Option Beat := none
  portSelect : PortSelect := .idle
deriving DecidableEq, Repr

/-- Lane merging: the ARP lane goes first, and a lane waits while a packet of the
other one is open. -/
def mergeStage (state : MergeState) : MergeState :=
  let arp := state.stage0Arp.filter fun _ => state.portSelect ≠ .ipv4
  let ipv4 := state.stage0Ipv4.filter fun _ => state.portSelect ≠ .arp
  match state.stage1, arp, ipv4 with
  | none, some beat, _ =>
      { state with
        stage1 := some beat
        stage0Arp := none
        portSelect := if beat.last then .idle else .arp }
  | none, none, some beat =>
      { state with
        stage1 := some beat
        stage0Ipv4 := none
        portSelect := if beat.last then .idle else .ipv4 }
  | _, _, _ => state

def txMerge (state : MergeState) (chDatInArp chDatInIpv4 : StreamIn Beat)
    (chDatOut : StreamOut Beat) :
    MergeState × StreamIn Beat × StreamIn Beat × StreamOut Beat :=
  -- output stage
  let (stage1, chDatOut) := chDatOut.flush state.stage1
  -- lane merging
  let state := mergeStage { state with stage1 }
  -- read stage
  let (stage0Arp, chDatInArp) := chDatInArp.fill state.stage0Arp
  let (stage0Ipv4, chDatInIpv4) := chDatInIpv4.fill state.stage0Ipv4
  ({ state with stage0Arp, stage0Ipv4 }, chDatInArp, chDatInIpv4, chDatOut)

end IcmpServer.TxMerge
