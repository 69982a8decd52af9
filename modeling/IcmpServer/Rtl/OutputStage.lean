import Mathlib.Data.List.Basic

/-! # Beats, queue words and the output stage

The converters and the packet buffer write their beats into a queue as 80-bit
words and take them out through the same output stage: a register that is
refilled from the queue when it is free or taken, under a registered flag saying
that the queue has a word to give.
-/

namespace IcmpServer.Rtl

/-- A beat of the 64-bit packet streams. -/
structure L8Beat where
  data : BitVec 64
  startofpacket : Bool
  endofpacket : Bool
  empty : BitVec 3
deriving DecidableEq, Repr

/-- The word of a beat in the queue. -/
def L8Beat.word (beat : L8Beat) : BitVec 80 :=
  0#11 ++ beat.empty ++ BitVec.ofBool beat.endofpacket ++ BitVec.ofBool beat.startofpacket ++
    beat.data

/-- `queue_l8_data` and the markers at the output of the queue. -/
def queueBeat (rdata : BitVec 80) : L8Beat where
  data := rdata.extractLsb' 0 64
  startofpacket := rdata.getLsbD 64
  endofpacket := rdata.getLsbD 65
  empty := rdata.extractLsb' 66 3

/-- The inputs sampled at one clock edge. -/
structure Cycle (ι : Type) where
  inData : ι
  inValid : Bool
  outReady : Bool
deriving DecidableEq, Repr

/-- The registers of an output stage. -/
structure OutputStage where
  queueDataExist : Bool
  stage0Enable : Bool
  stage0 : L8Beat
  outValid : Bool
deriving DecidableEq, Repr

namespace OutputStage

/-- Every register after the reset. -/
def reset : OutputStage :=
  ⟨false, false, ⟨0#64, false, false, 0#3⟩, false⟩

variable (stage : OutputStage) (outReady : Bool)

def nextStage0Acceptable : Bool :=
  stage.outValid && outReady || !stage.stage0Enable

def nextStage0Update : Bool :=
  stage.queueDataExist && stage.nextStage0Acceptable outReady

def nextStage0Enable : Bool :=
  if stage.nextStage0Acceptable outReady then stage.nextStage0Update outReady
  else stage.stage0Enable

def queuePop : Bool :=
  stage.nextStage0Update outReady

/-- One clock edge. -/
def clock (nextQueueDataExist : Bool) (nextStage0 : L8Beat) : OutputStage where
  queueDataExist := nextQueueDataExist
  stage0Enable := stage.nextStage0Enable outReady
  stage0 := if stage.nextStage0Update outReady then nextStage0 else stage.stage0
  outValid := stage.nextStage0Enable outReady

/-- The beat offered at the output. -/
def offered : List L8Beat :=
  if stage.outValid then [stage.stage0] else []

/-- The beat transferred at the edge: `out_valid` and `out_ready` are high. -/
def transfers : List L8Beat :=
  if stage.outValid && outReady then [stage.stage0] else []

/-- The two enables always agree. -/
structure Sound : Prop where
  enable : stage.stage0Enable = stage.outValid

theorem clock_sound (nextQueueDataExist : Bool) (nextStage0 : L8Beat) :
    (stage.clock outReady nextQueueDataExist nextStage0).Sound := ⟨rfl⟩

variable {stage}

theorem exist_of_pop (hpop : stage.queuePop outReady = true) : stage.queueDataExist = true :=
  (Bool.and_eq_true_iff.mp hpop).1

namespace Sound

variable (hsound : stage.Sound)
include hsound

/-- The register takes a word when there is one and it is free or taken. -/
theorem queuePop_eq :
    stage.queuePop outReady = (stage.queueDataExist && (!stage.outValid || outReady)) := by
  simp only [queuePop, nextStage0Update, nextStage0Acceptable, hsound.enable]
  cases stage.outValid <;> cases outReady <;> rfl

/-- It is valid after the edge when it is filled or was not taken. -/
theorem outValid_clock (nextQueueDataExist : Bool) (nextStage0 : L8Beat) :
    (stage.clock outReady nextQueueDataExist nextStage0).outValid =
      (stage.queuePop outReady || (stage.outValid && !outReady)) := by
  simp only [clock, nextStage0Enable, queuePop, nextStage0Update, nextStage0Acceptable,
    hsound.enable]
  cases stage.queueDataExist <;> cases stage.outValid <;> cases outReady <;> rfl

/-- A beat is offered until it is transferred, and then the next one is. -/
theorem transfers_append_offered (nextQueueDataExist : Bool) (nextStage0 : L8Beat) :
    stage.transfers outReady ++
        (stage.clock outReady nextQueueDataExist nextStage0).offered =
      stage.offered ++ if stage.queuePop outReady then [nextStage0] else [] := by
  have hstage0 : (stage.clock outReady nextQueueDataExist nextStage0).stage0 =
      if stage.queuePop outReady then nextStage0 else stage.stage0 := rfl
  rw [offered, hsound.outValid_clock, hstage0, hsound.queuePop_eq, offered, transfers]
  cases stage.queueDataExist <;> cases stage.outValid <;> cases outReady <;> simp

/-- A beat that is not taken stays. -/
theorem stable (hvalid : stage.outValid = true) (nextQueueDataExist : Bool) (nextStage0 : L8Beat) :
    (stage.clock false nextQueueDataExist nextStage0).outValid = true ∧
      (stage.clock false nextQueueDataExist nextStage0).stage0 = stage.stage0 := by
  have hpop : stage.queuePop false = false := by
    simp [hsound.queuePop_eq, hvalid]
  constructor
  · simp [hsound.outValid_clock, hvalid]
  · exact if_neg (ne_true_of_eq_false hpop)

end Sound

end OutputStage

/-! ## Queue words -/

/-- The bits of a queue word: data first, then the markers. -/
theorem L8Beat.getLsbD_word (beat : L8Beat) (bit : Nat) :
    beat.word.getLsbD bit =
      if bit < 64 then beat.data.getLsbD bit
      else if bit = 64 then beat.startofpacket
      else if bit = 65 then beat.endofpacket
      else beat.empty.getLsbD (bit - 66) := by
  have hword : beat.word.getLsbD bit = BitVec.getLsbD (w := 11 + 3 + 1 + 1 + 64)
      (0#11 ++ beat.empty ++ BitVec.ofBool beat.endofpacket ++
        BitVec.ofBool beat.startofpacket ++ beat.data) bit := rfl
  rw [hword]
  simp only [BitVec.getLsbD_append]
  rcases Nat.lt_or_ge bit 66 with hlow | hhigh
  · rcases Nat.lt_or_ge bit 64 with hdata | hmark
    · simp [hdata]
    · obtain rfl | rfl : bit = 64 ∨ bit = 65 := by omega
      · simp
      · simp
  · have hdata : ¬ bit < 64 := by omega
    have hstart : ¬ bit - 64 < 1 := by omega
    have hend : ¬ bit - 64 - 1 < 1 := by omega
    have hempty : bit - 64 - 1 - 1 = bit - 66 := by omega
    have hneStart : bit ≠ 64 := by omega
    have hneEnd : bit ≠ 65 := by omega
    simp only [hdata, hstart, hend, hempty, hneStart, hneEnd]
    simpa using fun hbit => BitVec.lt_of_getLsbD hbit

/-- A beat comes out of the queue as it went in. -/
theorem queueBeat_word (beat : L8Beat) : queueBeat beat.word = beat := by
  obtain ⟨data, startofpacket, endofpacket, empty⟩ := beat
  simp only [queueBeat, L8Beat.getLsbD_word, L8Beat.mk.injEq]
  refine ⟨?_, rfl, rfl, ?_⟩
  · apply BitVec.eq_of_getLsbD_eq
    intro bit hbit
    rw [BitVec.getLsbD_extractLsb', L8Beat.getLsbD_word]
    simp [hbit]
  · apply BitVec.eq_of_getLsbD_eq
    intro bit hbit
    rw [BitVec.getLsbD_extractLsb', L8Beat.getLsbD_word]
    have hdata : ¬ 66 + bit < 64 := by omega
    have hstart : 66 + bit ≠ 64 := by omega
    have hend : 66 + bit ≠ 65 := by omega
    simp [hbit, hdata, hstart, hend]

end IcmpServer.Rtl
