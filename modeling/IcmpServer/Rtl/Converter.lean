import IcmpServer.Rtl.Fifo80x8
import IcmpServer.Rtl.OutputStage

/-! # The two width converters

`l8_to_ulong2` and `ulong2_to_l8` are one circuit around `fifo_80x8`. They differ
in how a beat is packed at the input and at the output and in `data_remainder_f`,
which moves the bytes of a last beat.
-/

namespace IcmpServer.Rtl

/-- What distinguishes the two converters. -/
structure Converter (ι ο : Type) where
  inBeat : ι → L8Beat
  dataRemainder : Bool → BitVec 3 → BitVec 64 → BitVec 64
  outData : L8Beat → ο

/-- The registers of a converter. -/
structure ConverterState where
  fifo : Fifo80x8
  inReady : Bool
  output : OutputStage
deriving DecidableEq, Repr

/-- Every register after `arst_n`. -/
def ConverterState.reset : ConverterState :=
  ⟨Fifo80x8.reset, false, OutputStage.reset⟩

/-- `next_queue_data_exist`: a word stays in the queue behind this edge. -/
def ConverterState.nextQueueDataExist (state : ConverterState) (outReady : Bool) : Bool :=
  !state.fifo.empty && (!state.fifo.aempty || !state.output.queuePop outReady)

namespace Converter

variable {ι ο : Type} (converter : Converter ι ο)

/-- `next_stage0_l8_data` with the markers it goes with. -/
def nextStage0 (beat : L8Beat) : L8Beat :=
  { beat with data := converter.dataRemainder beat.endofpacket beat.empty beat.data }

/-- One clock edge. -/
def clock (state : ConverterState) (cycle : Cycle ι) : ConverterState where
  fifo := state.fifo.clock (converter.inBeat cycle.inData).word (cycle.inValid && state.inReady)
    (state.output.queuePop cycle.outReady)
  inReady := !decide (5#4 ≤ state.fifo.usedw1d)
  output := state.output.clock cycle.outReady (state.nextQueueDataExist cycle.outReady)
    (converter.nextStage0 (queueBeat state.fifo.rdata))

/-- What the converter makes of one beat. -/
def convert (beat : ι) : ο :=
  converter.outData (converter.nextStage0 (converter.inBeat beat))

end Converter

/-! ## The two converters -/

/-- `data_remainder_f` of `l8_to_ulong2`: a last beat is moved to the low end. -/
def l8ToUlong2Remainder (endofpacket : Bool) (empty : BitVec 3) (data : BitVec 64) : BitVec 64 :=
  if endofpacket then
    match empty.toNat with
    | 0 => data
    | 1 => 0#8 ++ data.extractLsb' 8 56
    | 2 => 0#16 ++ data.extractLsb' 16 48
    | 3 => 0#24 ++ data.extractLsb' 24 40
    | 4 => 0#32 ++ data.extractLsb' 32 32
    | 5 => 0#40 ++ data.extractLsb' 40 24
    | 6 => 0#48 ++ data.extractLsb' 48 16
    | _ => 0#56 ++ data.extractLsb' 56 8
  else data

/-- `data_remainder_f` of `ulong2_to_l8`. Each concatenation is assigned to a
64-bit result, which extends it with zeros or cuts it off. -/
def ulong2ToL8Remainder (endofpacket : Bool) (empty : BitVec 3) (data : BitVec 64) : BitVec 64 :=
  if endofpacket then
    match empty.toNat with
    | 0 => data
    | 1 => (data.extractLsb' 0 8 ++ 0#8).setWidth 64
    | 2 => (data.extractLsb' 0 16 ++ 0#16).setWidth 64
    | 3 => (data.extractLsb' 0 24 ++ 0#24).setWidth 64
    | 4 => (data.extractLsb' 0 32 ++ 0#32).setWidth 64
    | 5 => (data.extractLsb' 0 40 ++ 0#40).setWidth 64
    | 6 => (data.extractLsb' 0 48 ++ 0#48).setWidth 64
    | _ => (data.extractLsb' 0 56 ++ 0#56).setWidth 64
  else data

def l8ToUlong2 : Converter L8Beat (BitVec 128) where
  inBeat := id
  dataRemainder := l8ToUlong2Remainder
  outData beat :=
    0#40 ++ 0#5 ++ beat.empty ++ 0#7 ++ BitVec.ofBool beat.endofpacket ++ 0#7 ++
      BitVec.ofBool beat.startofpacket ++ beat.data

def ulong2ToL8 : Converter (BitVec 128) L8Beat where
  inBeat data :=
    ⟨data.extractLsb' 0 64, data.getLsbD 64, data.getLsbD 72, data.extractLsb' 80 3⟩
  dataRemainder := ulong2ToL8Remainder
  outData := id

/-! ## Runs -/

/-- A converter with the beats accepted and transferred since reset. -/
structure ConverterConfig (ι ο : Type) where
  state : ConverterState
  accepted : List ι
  transferred : List ο
deriving DecidableEq, Repr

namespace Converter

variable {ι ο : Type} (converter : Converter ι ο)

/-- A beat is accepted while `in_valid` and `in_ready` are high. -/
def accepts (state : ConverterState) (cycle : Cycle ι) : List ι :=
  if cycle.inValid && state.inReady then [cycle.inData] else []

def step (config : ConverterConfig ι ο) (cycle : Cycle ι) : ConverterConfig ι ο where
  state := converter.clock config.state cycle
  accepted := config.accepted ++ accepts config.state cycle
  transferred := config.transferred ++
    (config.state.output.transfers cycle.outReady).map converter.outData

/-- Any number of clock cycles from reset. -/
def run (cycles : List (Cycle ι)) : ConverterConfig ι ο :=
  cycles.foldl converter.step ⟨ConverterState.reset, [], []⟩

end Converter

end IcmpServer.Rtl
