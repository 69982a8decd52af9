import IcmpServer.Elastic.Process
import IcmpServer.Hls.Beat

/-! # The four ICMP components

Each definition is one call of a component of `icmp_proc.cpp`, section by
section in the order of the source: the output stage first, the input stage
last. A register `stageN` and its enable `stageN_en` are one optional value; the
source never reads a register whose enable is clear, with the one exception that
`stage1.data` is read once more in the call that swaps. Indices that the source
stores and never reads (`stage2_idx` of the swaps, `stage1_idx` of
`icmp_proc_param`, `stage3_idx` of `icmp_proc_ipv4chksum`) are left out.
-/

namespace IcmpServer.IcmpProc

open Elastic

/-- A register holding a beat with the index counted for it. -/
structure IdxBeat where
  beat : Beat
  idx : BitVec 8
deriving DecidableEq, Repr

/-- `idx_counter` after a beat: restarted by `eop`, else incremented as `UINT8`. -/
def nextIdx (idxCounter : BitVec 8) (beat : Beat) : BitVec 8 :=
  if beat.last then 0#8 else idxCounter + 1#8

/-- The input stage shared by the four components. -/
def inputStage (stage0 : Option IdxBeat) (idxCounter : BitVec 8) (chDatIn : StreamIn Beat) :
    Option IdxBeat × BitVec 8 × StreamIn Beat :=
  match stage0 with
  | some held => (some held, idxCounter, chDatIn)
  | none =>
      match chDatIn.tryRead with
      | (some beat, chDatIn) => (some ⟨beat, idxCounter⟩, nextIdx idxCounter beat, chDatIn)
      | (none, chDatIn) => (none, idxCounter, chDatIn)

/-- Static registers of a component: the highest stage, which feeds the output
stream, the stages between, stage 0 and the counter. -/
structure Registers (σ : Type) where
  top : Option Beat := none
  inner : σ
  stage0 : Option IdxBeat := none
  idxCounter : BitVec 8 := 0#8
deriving DecidableEq, Repr

/-- What a component does between its output stage and its input stage. -/
abbrev Stages (σ : Type) :=
  Option Beat → σ → Option IdxBeat → Option Beat × σ × Option IdxBeat

/-- One call of a component. -/
def componentCall {σ : Type} (stages : Stages σ) (state : Registers σ) (chDatIn : StreamIn Beat)
    (chDatOut : StreamOut Beat) : Registers σ × StreamIn Beat × StreamOut Beat :=
  -- output stage
  let (top, chDatOut) := chDatOut.flush state.top
  let (top, inner, stage0) := stages top state.inner state.stage0
  -- input stage
  let (stage0, idxCounter, chDatIn) := inputStage stage0 state.idxCounter chDatIn
  (⟨top, inner, stage0, idxCounter⟩, chDatIn, chDatOut)

/-! ## Address swaps -/

/-- What distinguishes `icmp_proc_swapmac` and `icmp_proc_swapip`: the index that
is held back, the index it waits for, and the new data of the two beats. -/
structure SwapField where
  held : BitVec 8
  partner : BitVec 8
  front : BitVec 64 → BitVec 64 → BitVec 64
  back : BitVec 64 → BitVec 64 → BitVec 64

/-- Stage 2 of a swapping component: bypass, or swap when both beats are there.
The last value is `swap_dst_op_en` with the old `stage1.data`. -/
def SwapField.stage2 (field : SwapField) (stage2 : Option Beat)
    (stage1 stage0 : Option IdxBeat) : Option Beat × Option IdxBeat × Option (BitVec 64) :=
  match stage2, stage1 with
  | none, some first =>
      if first.idx ≠ field.held then (some first.beat, none, none)
      else
        match stage0 with
        | some second =>
            if second.idx = field.partner then
              (some { first.beat with data := field.front first.beat.data second.beat.data },
                none, some first.beat.data)
            else (none, some first, none)
        | none => (none, some first, none)
  | stage2, stage1 => (stage2, stage1, none)

/-- Stage 1 of a swapping component. -/
def SwapField.stage1 (field : SwapField) (swapDstOpEn : Option (BitVec 64))
    (stage1 stage0 : Option IdxBeat) : Option IdxBeat × Option IdxBeat :=
  match stage1, stage0 with
  | none, some second =>
      match swapDstOpEn with
      | some firstData =>
          (some ⟨{ second.beat with data := field.back firstData second.beat.data },
            second.idx⟩, none)
      | none => (some second, none)
  | stage1, stage0 => (stage1, stage0)

/-- Stage 2 and then stage 1. -/
def SwapField.stages (field : SwapField) : Stages (Option IdxBeat) :=
  fun stage2 stage1 stage0 =>
    let (stage2, stage1, swapDstOpEn) := field.stage2 stage2 stage1 stage0
    let (stage1, stage0) := field.stage1 swapDstOpEn stage1 stage0
    (stage2, stage1, stage0)

/-- Destination and source MAC address over beats 0 and 1. -/
def macField : SwapField where
  held := 0#8
  partner := 1#8
  front stage1 stage0 :=
    ((stage1 <<< 48) &&& 0xFFFF000000000000#64)
      ||| ((stage0 >>> 16) &&& 0x0000FFFFFFFF0000#64)
      ||| ((stage1 >>> 48) &&& 0x000000000000FFFF#64)
  back stage1 stage0 :=
    ((stage1 <<< 16) &&& 0xFFFFFFFF00000000#64)
      ||| (stage0 &&& 0x00000000FFFFFFFF#64)

/-- Source and destination IP address over beats 3 and 4. -/
def ipField : SwapField where
  held := 3#8
  partner := 4#8
  front stage1 stage0 :=
    (stage1 &&& 0xFFFF000000000000#64)
      ||| ((stage1 <<< 32) &&& 0x0000FFFF00000000#64)
      ||| ((stage0 >>> 32) &&& 0x00000000FFFF0000#64)
      ||| ((stage1 >>> 32) &&& 0x000000000000FFFF#64)
  back stage1 stage0 :=
    ((stage1 <<< 32) &&& 0xFFFF000000000000#64)
      ||| (stage0 &&& 0x0000FFFFFFFFFFFF#64)

/-- The stage between is `stage1`; the highest is `stage2`. -/
abbrev SwapState := Registers (Option IdxBeat)

def icmpProcSwapmac (state : SwapState) (chDatIn : StreamIn Beat) (chDatOut : StreamOut Beat) :
    SwapState × StreamIn Beat × StreamOut Beat :=
  componentCall macField.stages state chDatIn chDatOut

def icmpProcSwapip (state : SwapState) (chDatIn : StreamIn Beat) (chDatOut : StreamOut Beat) :
    SwapState × StreamIn Beat × StreamOut Beat :=
  componentCall ipField.stages state chDatIn chDatOut

/-! ## Reply type and ICMP checksum -/

/-- The `UINT16` checksum update of case 4. -/
def paramChksum (field : BitVec 16) : BitVec 16 :=
  let chksum := ~~~field
  let chksum := if chksum < 0x0800#16 then chksum - 1#16 else chksum
  ~~~(chksum - 0x0800#16)

/-- `stage1.data` as the switch of stage 1 computes it. -/
def paramData (idx : BitVec 8) (data : BitVec 64) : BitVec 64 :=
  if idx = 4#8 then
    (data &&& 0xFFFF00FF0000FFFF#64)
      ||| ((paramChksum ((data >>> 16).setWidth 16)).setWidth 64 <<< 16)
  else data

/-- Stage 1, the highest of `icmp_proc_param`. -/
def paramStages : Stages Unit := fun stage1 _ stage0 =>
  match stage1, stage0 with
  | none, some held =>
      (some { held.beat with data := paramData held.idx held.beat.data }, (), none)
  | stage1, stage0 => (stage1, (), stage0)

/-- The highest stage is `stage1`; there is none between. -/
abbrev ParamState := Registers Unit

def icmpProcParam (state : ParamState) (chDatIn : StreamIn Beat) (chDatOut : StreamOut Beat) :
    ParamState × StreamIn Beat × StreamOut Beat :=
  componentCall paramStages state chDatIn chDatOut

/-! ## IPv4 header checksum -/

/-- The stages of `icmp_proc_ipv4chksum` between `stage3` and `stage0`, and its
checksum register. -/
structure ChksumInner where
  stage2 : Option IdxBeat := none
  stage1 : Option IdxBeat := none
  checksum : BitVec 24 := 0#24
deriving DecidableEq, Repr

/-- The 16 bits of `data` from bit `shift` up, as `UINT24`. -/
def word24 (data : BitVec 64) (shift : Nat) : BitVec 24 :=
  ((data >>> shift) &&& 0x000000000000FFFF#64).setWidth 24

/-- `checksum` as the switch of stage 1 updates it for a beat. -/
def chksumUpdate (checksum : BitVec 24) (held : IdxBeat) : BitVec 24 :=
  let data := held.beat.data
  if held.idx = 1#8 then (data &&& 0x000000000000FFFF#64).setWidth 24
  else if held.idx = 2#8 then
    checksum + (word24 data 48 + word24 data 32 + word24 data 16 + word24 data 0)
  else if held.idx = 3#8 then
    checksum + (word24 data 32 + word24 data 16 + word24 data 0)
  else if held.idx = 4#8 then
    let checksum := checksum + word24 data 48
    (checksum &&& 0x00FFFF#24) + ((checksum >>> 16) &&& 0x00FFFF#24)
  else checksum

/-- The beat of index 3 with the complemented checksum in its upper 16 bits. On an
unsigned `ac_int` the complement is negative, so widening it to `UINT64` sets
every upper bit. -/
def chksumInsert (checksum : BitVec 24) (beat : Beat) : Beat :=
  { beat with
    data := (((~~~(checksum.setWidth 64)) <<< 48) &&& 0xFFFF000000000000#64)
      ||| (beat.data &&& 0x0000FFFFFFFFFFFF#64) }

def chksumStage3 (checksum : BitVec 24) (stage3 : Option Beat)
    (stage2 stage1 : Option IdxBeat) : Option Beat × Option IdxBeat :=
  match stage3, stage2 with
  | none, some first =>
      if first.idx ≠ 3#8 then (some first.beat, none)
      else
        match stage1 with
        | some second =>
            if second.idx = 4#8 then (some (chksumInsert checksum first.beat), none)
            else (none, some first)
        | none => (none, some first)
  | stage3, stage2 => (stage3, stage2)

def chksumStage1 (checksum : BitVec 24) (stage1 stage0 : Option IdxBeat) :
    BitVec 24 × Option IdxBeat × Option IdxBeat :=
  match stage1, stage0 with
  | none, some held => (chksumUpdate checksum held, some held, none)
  | stage1, stage0 => (checksum, stage1, stage0)

/-- Stages 3, 2 and 1 in this order. -/
def chksumStages : Stages ChksumInner := fun stage3 inner stage0 =>
  let (stage3, stage2) := chksumStage3 inner.checksum stage3 inner.stage2 inner.stage1
  let (stage2, stage1) := advance stage2 inner.stage1
  let (checksum, stage1, stage0) := chksumStage1 inner.checksum stage1 stage0
  (stage3, ⟨stage2, stage1, checksum⟩, stage0)

abbrev ChksumState := Registers ChksumInner

def icmpProcIpv4chksum (state : ChksumState) (chDatIn : StreamIn Beat)
    (chDatOut : StreamOut Beat) : ChksumState × StreamIn Beat × StreamOut Beat :=
  componentCall chksumStages state chDatIn chDatOut

end IcmpServer.IcmpProc
