import IcmpServer.Elastic.Stream
import IcmpServer.Hls.Beat

/-! # The ARP processor

One call of `arp_proc`, section by section in the order of the source. The
receiver keeps the last six beats in `in_stage5` to `in_stage0` and shares
`rpy_mac` and `rpy_ip` with the sender, which builds one beat of a frame in each
call in which the output register is free.
-/

namespace IcmpServer.ArpProc

open Elastic

/-! ## Configuration -/

/-- The addresses to be changed before use, byte by byte as in the source. -/
structure Addresses where
  ownMac0 : BitVec 8
  ownMac1 : BitVec 8
  ownMac2 : BitVec 8
  ownMac3 : BitVec 8
  ownMac4 : BitVec 8
  ownMac5 : BitVec 8
  ownIp0 : BitVec 8
  ownIp1 : BitVec 8
  ownIp2 : BitVec 8
  ownIp3 : BitVec 8
  gtwIp0 : BitVec 8
  gtwIp1 : BitVec 8
  gtwIp2 : BitVec 8
  gtwIp3 : BitVec 8
deriving DecidableEq, Repr

/-- The addresses in the repository. -/
def Addresses.default : Addresses :=
  ⟨0x06#8, 0x00#8, 0x00#8, 0x00#8, 0x00#8, 0x00#8, 192#8, 168#8, 2#8, 100#8, 192#8, 168#8, 2#8,
    1#8⟩

variable (addresses : Addresses)

/-- `GTW_IP`. -/
def Addresses.gtwIp : BitVec 32 :=
  addresses.gtwIp0.setWidth 32 <<< 24 ||| addresses.gtwIp1.setWidth 32 <<< 16 |||
    addresses.gtwIp2.setWidth 32 <<< 8 ||| addresses.gtwIp3.setWidth 32

/-- `OWN_IP`. -/
def Addresses.ownIp : BitVec 32 :=
  addresses.ownIp0.setWidth 32 <<< 24 ||| addresses.ownIp1.setWidth 32 <<< 16 |||
    addresses.ownIp2.setWidth 32 <<< 8 ||| addresses.ownIp3.setWidth 32

/-- `BCAST_MAC`. -/
def bcastMac : BitVec 48 := 0xffffffffffff#48

/-- `arp_data`, the constant part of a frame. -/
def arpData : Fin 6 → Beat
  | 0 => ⟨0x0000000000000000#64 ||| addresses.ownMac0.setWidth 64 <<< 8 |||
      addresses.ownMac1.setWidth 64, 1#8, 0#8, 0#8⟩
  | 1 => ⟨0x0000000008060001#64 ||| addresses.ownMac2.setWidth 64 <<< 56 |||
      addresses.ownMac3.setWidth 64 <<< 48 ||| addresses.ownMac4.setWidth 64 <<< 40 |||
      addresses.ownMac5.setWidth 64 <<< 32, 0#8, 0#8, 0#8⟩
  | 2 => ⟨0x0800060400000000#64 ||| addresses.ownMac0.setWidth 64 <<< 8 |||
      addresses.ownMac1.setWidth 64, 0#8, 0#8, 0#8⟩
  | 3 => ⟨0x0000000000000000#64 ||| addresses.ownMac2.setWidth 64 <<< 56 |||
      addresses.ownMac3.setWidth 64 <<< 48 ||| addresses.ownMac4.setWidth 64 <<< 40 |||
      addresses.ownMac5.setWidth 64 <<< 32 ||| addresses.ownIp0.setWidth 64 <<< 24 |||
      addresses.ownIp1.setWidth 64 <<< 16 ||| addresses.ownIp2.setWidth 64 <<< 8 |||
      addresses.ownIp3.setWidth 64, 0#8, 0#8, 0#8⟩
  | 4 => ⟨0x0000000000000000#64, 0#8, 0#8, 0#8⟩
  | 5 => ⟨0x0000000000000000#64, 0#8, 1#8, 6#8⟩

/-- `out_stage.data |= bits`. -/
def orData (beat : Beat) (bits : BitVec 64) : Beat :=
  { beat with data := beat.data ||| bits }

/-- The two send sequences differ in a MAC address, the operation and the target
IP address. An index without a case leaves the register as it is. -/
def sendSequence (mac : BitVec 48) (op : BitVec 64) (ip : BitVec 32) (outSendIdx : BitVec 8)
    (outStage : Beat) : Beat :=
  match outSendIdx.toNat with
  | 0 => orData (arpData addresses 0) (mac.setWidth 64 <<< 16)
  | 1 => arpData addresses 1
  | 2 => orData (arpData addresses 2) op
  | 3 => arpData addresses 3
  -- a reply too takes the upper half of its target IP address from `GTW_IP`
  | 4 => orData (arpData addresses 4)
      (mac.setWidth 64 <<< 16 ||| addresses.gtwIp.setWidth 64 >>> 16 &&& 0x000000000000ffff#64)
  | 5 => orData (arpData addresses 5) (ip.setWidth 64 <<< 48 &&& 0xffff000000000000#64)
  | _ => outStage

def arpRequest : BitVec 8 → Beat → Beat :=
  sendSequence addresses bcastMac 0x0000000000010000#64 addresses.gtwIp

def arpReply (rpyMac : BitVec 48) (rpyIp : BitVec 32) : BitVec 8 → Beat → Beat :=
  sendSequence addresses rpyMac 0x0000000000020000#64 rpyIp

/-! ## State -/

/-- `OUT_SEND_MODE_IDLE`, `OUT_SEND_MODE_ARP_REQUEST` and `OUT_SEND_MODE_ARP_REPLY`. -/
inductive OutSendMode
  | idle
  | arpRequest
  | arpReply
deriving DecidableEq, Repr

/-- Static registers of `arp_proc`. -/
structure ArpState where
  outStage : Beat
  outStageEn : Bool
  outSendIdx : BitVec 8
  outSendArpRpyStdby : Bool
  outSendArpReqStdby : Bool
  outSendMode : OutSendMode
  inStage5 : Beat
  inStage4 : Beat
  inStage3 : Beat
  inStage2 : Beat
  inStage1 : Beat
  inStage0 : Option Beat
  gtwMac : BitVec 48
  rpyMac : BitVec 48
  rpyIp : BitVec 32
  arpCacheInvalidateCount : BitVec 16
deriving DecidableEq, Repr

/-- `{0x0000000000000000ULL, 0, 0, 0}`. -/
def zeroBeat : Beat := ⟨0#64, 0#8, 0#8, 0#8⟩

/-- Before the first call. -/
def ArpState.init : ArpState :=
  ⟨zeroBeat, false, 0#8, false, false, .idle, zeroBeat, zeroBeat, zeroBeat, zeroBeat, zeroBeat,
    none, 0#48, 0#48, 0#32, 0#16⟩

/-- `ARP_CACHE_LIFETIME`. -/
def arpCacheLifetime : BitVec 16 := 16#16

/-! ## Sections -/

/-- Output stage. -/
def outputStage (state : ArpState) (chDatOut : StreamOut Beat) : ArpState × StreamOut Beat :=
  if state.outStageEn then
    let (taken, chDatOut) := chDatOut.tryWrite state.outStage
    ({ state with outStageEn := !taken }, chDatOut)
  else (state, chDatOut)

/-- A beat of a send sequence enters the output register; beat 5 ends the sequence. -/
def placeBeat (state : ArpState) (beat : Beat) : ArpState :=
  { state with
    outStage := beat
    outSendMode := if state.outSendIdx = 5#8 then .idle else state.outSendMode
    outSendIdx := state.outSendIdx + 1#8
    outStageEn := true }

/-- The send sequences. -/
def sendStage (state : ArpState) : ArpState :=
  if state.outStageEn then state
  else
    match state.outSendMode with
    | .idle => state
    | .arpRequest => placeBeat state (arpRequest addresses state.outSendIdx state.outStage)
    | .arpReply =>
        placeBeat state
          (arpReply addresses state.rpyMac state.rpyIp state.outSendIdx state.outStage)

/-- The PPS input drives the ARP send sequence. -/
def ppsStage (state : ArpState) (ppsEn : Bool) : ArpState :=
  if ppsEn then
    if state.arpCacheInvalidateCount = 0#16 then { state with outSendArpReqStdby := true }
    else { state with arpCacheInvalidateCount := state.arpCacheInvalidateCount - 1#16 }
  else state

/-- The fields of a received packet. -/
structure Received where
  arpOp : BitVec 8
  srcMac : BitVec 48
  srcIp : BitVec 32
  dstIp : BitVec 32
deriving DecidableEq, Repr

/-- `recv_arp_op`, `recv_src_mac`, `recv_src_ip` and `recv_dst_ip`. -/
def received (inStage3 inStage2 inStage1 inStage0 : Beat) : Received where
  arpOp := (inStage3.data >>> 16 &&& 0x00000000000000ff#64).setWidth 8
  srcMac := (inStage3.data <<< 32 &&& 0x0000ffff00000000#64 |||
    inStage2.data >>> 32 &&& 0x00000000ffffffff#64).setWidth 48
  srcIp := (inStage2.data &&& 0x00000000ffffffff#64).setWidth 32
  dstIp := (inStage1.data <<< 16 &&& 0x00000000ffff0000#64 |||
    inStage0.data >>> 48 &&& 0x000000000000ffff#64).setWidth 32

/-- The gateway's address is stored and lives on. -/
def refreshCache (state : ArpState) (recv : Received) : ArpState :=
  { state with gtwMac := recv.srcMac, arpCacheInvalidateCount := arpCacheLifetime }

/-- The receive dispatch flow. -/
def dispatch (state : ArpState) (recv : Received) : ArpState :=
  if recv.arpOp = 0x01#8 then
    -- a request is dropped while an earlier reply waits for the sender
    if recv.dstIp = addresses.ownIp ∧ state.outSendArpRpyStdby = false then
      { state with rpyMac := recv.srcMac, rpyIp := recv.srcIp, outSendArpRpyStdby := true }
    else if recv.dstIp = addresses.gtwIp ∧ recv.srcIp = addresses.gtwIp then refreshCache state recv
    else state
  else if recv.srcIp = addresses.gtwIp then refreshCache state recv
  else state

/-- Pushing the delay buffer. -/
def pushStages (state : ArpState) (inStage0 : Beat) : ArpState :=
  { state with
    inStage5 := state.inStage4
    inStage4 := state.inStage3
    inStage3 := state.inStage2
    inStage2 := state.inStage1
    inStage1 := inStage0
    inStage0 := none }

/-- Input ARP processing. -/
def inputStage (state : ArpState) : ArpState :=
  match state.inStage0 with
  | none => state
  | some inStage0 =>
      -- six beats are there once the first one has come to `in_stage5`
      let state :=
        if state.inStage5.sop ≠ 0#8 then
          dispatch addresses state (received state.inStage3 state.inStage2 state.inStage1 inStage0)
        else state
      pushStages state inStage0

/-- `out_send_mode` control. -/
def modeControl (state : ArpState) : ArpState :=
  if state.outSendMode = .idle then
    if state.outSendArpRpyStdby then
      { state with
        outSendMode := .arpReply
        outSendArpRpyStdby := false
        outSendIdx := 0#8 }
    else if state.outSendArpReqStdby then
      { state with
        outSendMode := .arpRequest
        outSendArpReqStdby := false
        outSendIdx := 0#8 }
    else state
  else state

def arpProc (state : ArpState) (chDatIn : StreamIn Beat) (chDatOut : StreamOut Beat)
    (chPpsIn : StreamIn (BitVec 8)) :
    ArpState × StreamIn Beat × StreamOut Beat × StreamIn (BitVec 8) :=
  let (state, chDatOut) := outputStage state chDatOut
  let state := sendStage addresses state
  let (pps, chPpsIn) := chPpsIn.tryRead
  let state := modeControl (inputStage addresses (ppsStage state pps.isSome))
  -- read input
  let (inStage0, chDatIn) := chDatIn.fill state.inStage0
  ({ state with inStage0 }, chDatIn, chDatOut, chPpsIn)

end IcmpServer.ArpProc
