import IcmpServer.Elastic.Queue
import IcmpServer.Rtl.OutputStage

/-! # The packet buffer

`l8_pkt_buf` holds a packet back until its last beat has arrived. It is built on
the vendor's `scfifo`, which is a parameter here: a state with the ports that
`fifo_80x2048` connects.
-/

namespace IcmpServer.Rtl

open Elastic

/-- The vendor's single-clock FIFO with the ports in use. -/
structure Scfifo where
  State : Type
  /-- After the asynchronous clear. -/
  aclr : State
  clock : State → (data : BitVec 80) → (rdreq wrreq : Bool) → State
  q : State → BitVec 80
  almostEmpty : State → Bool
  empty : State → Bool
  full : State → Bool
  usedw : State → BitVec 11

/-- The documented behaviour for `lpm_numwords` 2048, `almost_empty_value` 2 and
`lpm_showahead` on, for requests that are met: `q` is the oldest word, and the
status ports describe the words held. -/
structure Scfifo.Ideal (scfifo : Scfifo) (words : scfifo.State → List (BitVec 80)) : Prop where
  aclr : words scfifo.aclr = []
  clock : ∀ state data rdreq wrreq, (rdreq = true → words state ≠ []) →
    (wrreq = true → (words state).length < 2048) →
    words (scfifo.clock state data rdreq wrreq) =
      queueStep (words state) rdreq (if wrreq then [data] else [])
  q : ∀ state word rest, words state = word :: rest → scfifo.q state = word
  almostEmpty : ∀ state, scfifo.almostEmpty state = decide ((words state).length < 2)
  empty : ∀ state, scfifo.empty state = decide ((words state).length = 0)
  full : ∀ state, scfifo.full state = decide ((words state).length = 2048)
  usedw : ∀ state, scfifo.usedw state = BitVec.ofNat 11 (words state).length

/-- A FIFO with this behaviour: a list of words. -/
def Scfifo.list : Scfifo where
  State := List (BitVec 80)
  aclr := []
  clock words data rdreq wrreq := queueStep words rdreq (if wrreq then [data] else [])
  q words := words.headD 0#80
  almostEmpty words := decide (words.length < 2)
  empty words := decide (words.length = 0)
  full words := decide (words.length = 2048)
  usedw words := BitVec.ofNat 11 words.length

theorem Scfifo.list_ideal : Scfifo.list.Ideal id where
  aclr := rfl
  clock _ _ _ _ _ _ := rfl
  q words word rest hwords := by
    rw [id] at hwords
    rw [hwords]
    rfl
  almostEmpty _ := rfl
  empty _ := rfl
  full _ := rfl
  usedw _ := rfl

/-- `fifo_80x2048`: the FIFO and the delayed full flag. -/
structure Fifo80x2048 (scfifo : Scfifo) where
  inst : scfifo.State
  full1d : Bool

namespace Fifo80x2048

variable {scfifo : Scfifo}

/-- The flag has no reset of its own; at a clock edge under `xrst` it takes the
`full` of the cleared FIFO. -/
def reset : Fifo80x2048 scfifo :=
  ⟨scfifo.aclr, scfifo.full scfifo.aclr⟩

def clock (fifo : Fifo80x2048 scfifo) (wdata : BitVec 80) (wval rval : Bool) :
    Fifo80x2048 scfifo :=
  ⟨scfifo.clock fifo.inst wdata rval wval, scfifo.full fifo.inst⟩

def usedw (fifo : Fifo80x2048 scfifo) : BitVec 12 :=
  BitVec.ofBool fifo.full1d ++ scfifo.usedw fifo.inst

end Fifo80x2048

/-- The registers of `l8_pkt_buf`. -/
structure PktBufState (scfifo : Scfifo) where
  fifo : Fifo80x2048 scfifo
  fromL8Ready : Bool
  pktIn1d : Bool
  pktIn2d : Bool
  queuePktCount : BitVec 12
  output : OutputStage

/-- `next_queue_pkt_count_f`. -/
def nextQueuePktCountF (queuePktCount : BitVec 12) (pktIn pktOut : Bool) : BitVec 12 :=
  if pktIn && !pktOut then queuePktCount + 1#12
  else if !pktIn && pktOut then queuePktCount - 1#12
  else queuePktCount

namespace PktBufState

variable {scfifo : Scfifo}

/-- Every register after `xrst`. -/
def reset : PktBufState scfifo :=
  ⟨Fifo80x2048.reset, false, false, false, 0#12, OutputStage.reset⟩

variable (state : PktBufState scfifo)

def pktIn (cycle : Cycle L8Beat) : Bool :=
  cycle.inData.endofpacket && cycle.inValid && state.fromL8Ready

def pktOut (toL8Ready : Bool) : Bool :=
  (queueBeat (scfifo.q state.fifo.inst)).endofpacket && state.output.queuePop toL8Ready

def nextQueuePktCount (toL8Ready : Bool) : BitVec 12 :=
  nextQueuePktCountF state.queuePktCount state.pktIn2d (state.pktOut toL8Ready)

def nextQueueDataExist (toL8Ready : Bool) : Bool :=
  !scfifo.empty state.fifo.inst &&
    (!scfifo.almostEmpty state.fifo.inst || !state.output.queuePop toL8Ready) &&
    state.nextQueuePktCount toL8Ready != 0#12

/-- One clock edge. -/
def clock (cycle : Cycle L8Beat) : PktBufState scfifo where
  fifo := state.fifo.clock cycle.inData.word (cycle.inValid && state.fromL8Ready)
    (state.output.queuePop cycle.outReady)
  -- room for the words that come before `ready` is seen low
  fromL8Ready := !(decide (2045#12 ≤ state.fifo.usedw) ||
    decide (2045#12 ≤ state.nextQueuePktCount cycle.outReady))
  pktIn1d := state.pktIn cycle
  pktIn2d := state.pktIn1d
  queuePktCount := state.nextQueuePktCount cycle.outReady
  output := state.output.clock cycle.outReady (state.nextQueueDataExist cycle.outReady)
    -- show-ahead: the word at the output of the FIFO, not yet acknowledged
    (queueBeat (scfifo.q state.fifo.inst))

/-- A beat is accepted while `from_l8_valid` and `from_l8_ready` are high. -/
def accepts (cycle : Cycle L8Beat) : List L8Beat :=
  if cycle.inValid && state.fromL8Ready then [cycle.inData] else []

end PktBufState

/-! ## Runs -/

/-- A packet buffer with the beats accepted and transferred since reset. -/
structure PktBufConfig (scfifo : Scfifo) where
  state : PktBufState scfifo
  accepted : List L8Beat
  transferred : List L8Beat

namespace PktBuf

variable {scfifo : Scfifo}

def start (scfifo : Scfifo) : PktBufConfig scfifo :=
  ⟨PktBufState.reset, [], []⟩

def step (config : PktBufConfig scfifo) (cycle : Cycle L8Beat) : PktBufConfig scfifo where
  state := config.state.clock cycle
  accepted := config.accepted ++ config.state.accepts cycle
  transferred := config.transferred ++ config.state.output.transfers cycle.outReady

/-- Any number of clock cycles. -/
def run (config : PktBufConfig scfifo) (cycles : List (Cycle L8Beat)) : PktBufConfig scfifo :=
  cycles.foldl step config

theorem run_append (config : PktBufConfig scfifo) (first second : List (Cycle L8Beat)) :
    run config (first ++ second) = run (run config first) second :=
  List.foldl_append

end PktBuf

end IcmpServer.Rtl
