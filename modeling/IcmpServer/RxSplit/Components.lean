import IcmpServer.Elastic.Pipeline
import IcmpServer.Hls.Beat
import Mathlib.Data.Fintype.Defs
import Mathlib.Data.Finset.Insert

/-! # The receive splitters

`rx_split_by_etype` and `rx_split_by_ipv4proto` differ in their ports, in the
number of stages and in how `output_state` is updated; the call is the same.
-/

namespace IcmpServer.RxSplit

open Elastic

/-- Static registers of a splitter with `depth` stages behind its routing stage. -/
structure SplitState (Port : Type) (depth : Nat) where
  /-- The highest stage, one register for each output. -/
  out : Port → Option Beat
  /-- The stages below, down to stage 0. -/
  stages : Pipeline Beat depth
  /-- `output_state`, absent in the hold mode. -/
  outputState : Option Port

/-- All enables clear, in the hold mode. -/
def SplitState.init (Port : Type) (depth : Nat) : SplitState Port depth :=
  ⟨fun _ => none, Pipeline.empty Beat depth, none⟩

variable {Port : Type} [DecidableEq Port] {depth : Nat}

/-- The routing stage. The last value is `sop_next_expected`. -/
def routing (outputState : Option Port) (out : Port → Option Beat) (stages : Pipeline Beat depth) :
    (Port → Option Beat) × Pipeline Beat depth × Bool :=
  match outputState with
  | some port =>
      match out port, stages.front with
      | none, some beat => (Function.update out port (some beat), stages.pop, beat.last)
      | _, _ => (out, stages, false)
  | none => (out, stages, true)

/-- One call of a splitter that updates `output_state` by `updateState`. -/
def splitCall (updateState : Pipeline Beat depth → Option Port) (state : SplitState Port depth)
    (chDatIn : StreamIn Beat) (chDatOut : Port → StreamOut Beat) :
    SplitState Port depth × StreamIn Beat × (Port → StreamOut Beat) :=
  -- output stage
  let flushed := fun port => (chDatOut port).flush (state.out port)
  -- routing
  let (out, stages, sopNextExpected) :=
    routing state.outputState (fun port => (flushed port).1) state.stages
  -- queueing stages and read stage
  let (stages, chDatIn) := stages.shift chDatIn
  -- update state
  let outputState := if sopNextExpected then updateState stages else state.outputState
  (⟨out, stages, outputState⟩, chDatIn, fun port => (flushed port).2)

/-! ## By EtherType -/

/-- `S_ETYPE_ARP`, `S_ETYPE_IPV4` and `S_ETYPE_OTHER`. -/
inductive Etype
  | arp
  | ipv4
  | other
deriving DecidableEq, Repr

instance : Fintype Etype :=
  ⟨{.arp, .ipv4, .other}, fun port => by cases port <;> simp⟩

/-- The switch on the EtherType field of the second beat. -/
def etypeSwitch (data : BitVec 64) : Etype :=
  let field := data &&& 0x00000000ffff0000#64
  if field = 0x0000000008060000#64 then .arp
  else if field = 0x0000000008000000#64 then .ipv4
  else .other

/-- The update of `output_state` from stages 2 and 1. -/
def etypeUpdate (stages : Pipeline Beat 2) : Option Etype :=
  match stages.front, stages.behind with
  | some stage2, stage1 :: _ =>
      if stage2.last then some .other
      else
        match stage1 with
        | some beat => some (etypeSwitch beat.data)
        | none => none
  | _, _ => none

def rxSplitByEtype (state : SplitState Etype 2) (chDatIn : StreamIn Beat)
    (chDatOut : Etype → StreamOut Beat) :
    SplitState Etype 2 × StreamIn Beat × (Etype → StreamOut Beat) :=
  splitCall etypeUpdate state chDatIn chDatOut

/-! ## By IPv4 protocol -/

/-- `S_IPV4PROTO_ICMP` and `S_IPV4PROTO_OTHER`. -/
inductive Ipv4Proto
  | icmp
  | other
deriving DecidableEq, Repr

instance : Fintype Ipv4Proto :=
  ⟨{.icmp, .other}, fun port => by cases port <;> simp⟩

/-- The switch on the protocol field of the third beat. -/
def ipv4protoSwitch (data : BitVec 64) : Ipv4Proto :=
  if data &&& 0x00000000000000ff#64 = 0x0000000000000001#64 then .icmp else .other

/-- The update of `output_state` from stages 3, 2 and 1. -/
def ipv4protoUpdate (stages : Pipeline Beat 3) : Option Ipv4Proto :=
  match stages.front, stages.behind with
  | some stage3, stage2 :: stage1 :: _ =>
      if stage3.last then some .other
      else
        match stage2 with
        | some second =>
            if second.last then some .other
            else
              match stage1 with
              | some beat => some (ipv4protoSwitch beat.data)
              | none => none
        | none => none
  | _, _ => none

def rxSplitByIpv4proto (state : SplitState Ipv4Proto 3) (chDatIn : StreamIn Beat)
    (chDatOut : Ipv4Proto → StreamOut Beat) :
    SplitState Ipv4Proto 3 × StreamIn Beat × (Ipv4Proto → StreamOut Beat) :=
  splitCall ipv4protoUpdate state chDatIn chDatOut

/-! ## Discarding -/

/-- The terminator of the ports for other packets: what is read is dropped. -/
def rxSplitDiscard (chDatIn : StreamIn Beat) : StreamIn Beat :=
  chDatIn.tryRead.2

end IcmpServer.RxSplit
