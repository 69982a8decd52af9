import IcmpServer.Rtl.Draining
import IcmpServer.Rtl.Transmitter

/-! # Delivery

Beats in a converter or in the packet buffer come out as long as the output is taken
again and again. Of every circuit the beats it holds, weighted, and how far the next
one is from being offered add up to a measure that no clock edge makes larger.
-/

namespace IcmpServer.Rtl

open Elastic

/-! ## Converters -/

namespace ConverterState

/-- Beats in the queue and in the output register. -/
def held (state : ConverterState) : Nat :=
  state.fifo.count + state.output.outValid.toNat

/-- Clock edges until a beat is offered: through the output register, the flag, the
queue and, for the first one, the ready signal computed from a delayed count. -/
def phase (state : ConverterState) : Nat :=
  if state.output.outValid then 0
  else if state.output.queueDataExist then 1
  else if state.fifo.count ≠ 0 then 2
  else if 5 ≤ state.fifo.usedw1d.toNat then 5
  else if state.inReady then 3
  else 4

theorem phase_le (state : ConverterState) : state.phase ≤ 5 := by
  unfold phase
  split_ifs <;> decide

end ConverterState

section Converter

variable {ι ο : Type} (converter : Converter ι ο) {state : ConverterState}
  (hsound : state.Sound) (cycle : Cycle ι)
include hsound

theorem held_clock :
    (converter.clock state cycle).held + (state.output.outValid && cycle.outReady).toNat =
      state.held + (cycle.inValid && state.inReady).toNat := by
  have hcount : (converter.clock state cycle).fifo.count =
      state.fifo.count + (cycle.inValid && state.inReady).toNat -
        (state.output.queuePop cycle.outReady).toNat :=
    hsound.count_clock (converter.inBeat cycle.inData).word cycle.inValid cycle.outReady
  have hvalid : (converter.clock state cycle).output.outValid =
      (state.output.queuePop cycle.outReady || (state.output.outValid && !cycle.outReady)) :=
    hsound.output.outValid_clock cycle.outReady _ _
  have hpop := hsound.pop cycle.outReady
  rw [ConverterState.held, ConverterState.held, hcount, hvalid]
  rw [hsound.output.queuePop_eq] at hpop ⊢
  revert hpop
  cases state.output.outValid <;> cases state.output.queueDataExist <;> cases cycle.outReady <;>
    simp <;> omega

/-- A circuit that neither offers a beat nor is about to, behind a clock edge. -/
theorem clock_idle (hvalid : state.output.outValid = false)
    (hexist : state.output.queueDataExist = false) :
    (converter.clock state cycle).output.outValid = false ∧
      (converter.clock state cycle).output.queueDataExist = decide (state.fifo.count ≠ 0) ∧
      (converter.clock state cycle).fifo.count =
        state.fifo.count + (cycle.inValid && state.inReady).toNat := by
  have hpop : state.output.queuePop cycle.outReady = false := by
    rw [hsound.output.queuePop_eq, hexist, Bool.false_and]
  refine ⟨?_, ?_, ?_⟩
  · rw [Converter.clock, hsound.output.outValid_clock, hpop, hvalid]
    rfl
  · have hflag : (converter.clock state cycle).output.queueDataExist = !state.fifo.empty := by
      simp [Converter.clock, OutputStage.clock, ConverterState.nextQueueDataExist, hpop]
    rw [hflag, Bool.eq_iff_iff, Bool.not_eq_true', ← Bool.not_eq_true, Fifo80x8.empty_eq_true,
      decide_eq_true_iff]
  · have hcount := hsound.count_clock (converter.inBeat cycle.inData).word cycle.inValid
      cycle.outReady
    rw [Converter.clock, hcount, hpop, Bool.toNat_false, Nat.sub_zero]

/-- Without a beat to offer the circuit comes closer to one, if there is one. -/
theorem phase_clock_lt (hvalid : state.output.outValid = false)
    (hmore : state.fifo.count ≠ 0 ∨ cycle.inValid = true) :
    (converter.clock state cycle).phase < state.phase := by
  cases hexist : state.output.queueDataExist with
  | true =>
      have hfilled : (converter.clock state cycle).output.outValid = true := by
        rw [Converter.clock, hsound.output.outValid_clock, hsound.output.queuePop_eq, hexist,
          hvalid]
        rfl
      simp [ConverterState.phase, hfilled, hvalid, hexist]
  | false =>
      obtain ⟨hnext, hflag, hcount⟩ := clock_idle converter hsound cycle hvalid hexist
      have husedw : (converter.clock state cycle).fifo.usedw1d.toNat = state.fifo.count := rfl
      have hready : (converter.clock state cycle).inReady =
          !decide (5 ≤ state.fifo.usedw1d.toNat) := rfl
      simp only [ConverterState.phase, hnext, hflag, hcount, husedw, hready, hvalid, hexist]
      by_cases hempty : state.fifo.count = 0
      · obtain hin := hmore.resolve_left (not_not.mpr hempty)
        simp only [hempty, hin]
        cases state.inReady <;> by_cases hdelayed : 5 ≤ state.fifo.usedw1d.toNat <;>
          simp [hdelayed]
      · simp [hempty]

theorem phase_clock_le (hkept : (state.output.outValid && cycle.outReady) = false) :
    (converter.clock state cycle).phase ≤ state.phase := by
  cases hvalid : state.output.outValid with
  | true =>
      have hnotReady : cycle.outReady = false := by simpa [hvalid] using hkept
      have hstays : (converter.clock state cycle).output.outValid = true := by
        rw [Converter.clock, hsound.output.outValid_clock, hvalid, hnotReady]
        simp
      simp [ConverterState.phase, hstays]
  | false =>
      by_cases hmore : state.fifo.count ≠ 0 ∨ cycle.inValid = true
      · exact Nat.le_of_lt (phase_clock_lt converter hsound cycle hvalid hmore)
      · -- nothing comes in: the ready signal catches up with the empty queue
        simp only [not_or, not_not, Bool.not_eq_true] at hmore
        have hexist : state.output.queueDataExist = false := by
          by_contra hexist
          exact hsound.exist (by simpa using hexist) hmore.1
        obtain ⟨hnext, hflag, hcount⟩ := clock_idle converter hsound cycle hvalid hexist
        have husedw : (converter.clock state cycle).fifo.usedw1d.toNat = state.fifo.count := rfl
        have hready : (converter.clock state cycle).inReady =
            !decide (5 ≤ state.fifo.usedw1d.toNat) := rfl
        simp only [ConverterState.phase, hnext, hflag, hcount, husedw, hready, hvalid, hexist,
          hmore]
        cases state.inReady <;> by_cases hdelayed : 5 ≤ state.fifo.usedw1d.toNat <;>
          simp [hdelayed]

/-- Edges left until all beats held have been taken, when none comes in. -/
def ConverterState.work (state : ConverterState) : Nat :=
  6 * state.held + state.phase

variable (hnone : (cycle.inValid && state.inReady) = false)
include hnone

theorem converter_work_le : (converter.clock state cycle).work ≤ state.work := by
  have hheld := held_clock converter hsound cycle
  have hphase := (converter.clock state cycle).phase_le
  rw [hnone] at hheld
  rw [ConverterState.work, ConverterState.work]
  cases hkept : (state.output.outValid && cycle.outReady) with
  | true =>
      rw [hkept, Bool.toNat_true] at hheld
      simp only [Bool.toNat_false] at hheld
      omega
  | false =>
      have hcloser := phase_clock_le converter hsound cycle hkept
      simp only [hkept, Bool.toNat_false] at hheld
      omega

theorem converter_work_lt (htaken : cycle.outReady = true) (hheld : state.held ≠ 0) :
    (converter.clock state cycle).work < state.work := by
  have hclock := held_clock converter hsound cycle
  have hphase := (converter.clock state cycle).phase_le
  rw [hnone, htaken, Bool.and_true] at hclock
  rw [ConverterState.work, ConverterState.work]
  cases hvalid : state.output.outValid with
  | true =>
      rw [hvalid, Bool.toNat_true, Bool.toNat_false] at hclock
      omega
  | false =>
      have hcount : state.fifo.count ≠ 0 := by
        rwa [ConverterState.held, hvalid, Bool.toNat_false, Nat.add_zero] at hheld
      have hcloser := phase_clock_lt converter hsound cycle hvalid (Or.inl hcount)
      rw [hvalid, Bool.toNat_false] at hclock
      omega

end Converter

/-- A converter that holds nothing has transferred all it has accepted. -/
theorem Converter.Accounted.transferred_eq {ι ο : Type} {converter : Converter ι ο}
    {config : ConverterConfig ι ο} (hconfig : converter.Accounted config)
    (hheld : config.state.held = 0) :
    config.transferred = config.accepted.map converter.convert := by
  obtain ⟨sent, queued, haccepted, hqueue, hsent⟩ := hconfig.queued
  rw [ConverterState.held] at hheld
  have hempty : queued = [] := by
    have hlength := config.state.fifo.length_contents (Nat.le_succ_of_le hconfig.sound.count)
    rw [hqueue, List.length_map] at hlength
    exact List.length_eq_zero_iff.mp (by omega)
  have hnone : config.state.output.outValid = false := Bool.toNat_eq_zero.mp (by omega)
  rw [haccepted, hempty, List.append_nil, ← hsent]
  simp [OutputStage.offered, hnone]

/-! ## The packet buffer -/

namespace PktBufState.Sound

variable {scfifo : Scfifo} {words : scfifo.State → List (BitVec 80)} {state : PktBufState scfifo}
  (hideal : scfifo.Ideal words) (hsound : Sound words state)
include hideal hsound

/-- Only a beat that comes in is more work. -/
theorem work_clock_le (cycle : Cycle L8Beat) :
    (state.clock cycle).work words ≤ state.work words + 7 * (state.accepts cycle).length := by
  have hlength := hsound.length_clock hideal cycle
  have hflag := (!(state.clock cycle).output.queueDataExist).toNat_le
  have hend := (state.clock cycle).pktIn1d.toNat_le
  have hoffers := (state.clock cycle).output.outValid.toNat_le
  rw [work, work]
  cases haccepts : (cycle.inValid && state.fromL8Ready) with
  | true =>
      have hone : (state.accepts cycle).length = 1 := by simp [accepts, haccepts]
      rw [hone] at hlength ⊢
      omega
  | false =>
      have hnone : (state.accepts cycle).length = 0 := by simp [accepts, haccepts]
      have hnoEnd : (state.clock cycle).pktIn1d = false := by
        rw [PktBufState.clock, pktIn, Bool.and_assoc, haccepts, Bool.and_false]
      have hvalid : (state.clock cycle).output.outValid =
          (state.output.queuePop cycle.outReady || (state.output.outValid && !cycle.outReady)) :=
        hsound.output.outValid_clock cycle.outReady _ _
      rw [hnone] at hlength ⊢
      rw [hnoEnd, hvalid]
      rw [hvalid] at hoffers
      cases hpop : state.output.queuePop cycle.outReady with
      | true =>
          simp only [hpop, Bool.toNat_true, Bool.toNat_false, Bool.true_or] at hlength hoffers ⊢
          omega
      | false =>
          -- the flag is not lowered without a pop
          have hstays : (!(state.clock cycle).output.queueDataExist).toNat ≤
              (!state.output.queueDataExist).toNat := by
            cases hexist : state.output.queueDataExist with
            | false => exact hflag
            | true =>
                have hmid : state.pktOut cycle.outReady = false := by simp [pktOut, hpop]
                have hraised := hsound.nextQueueDataExist_of_mid hideal cycle.outReady hexist hmid
                simp [PktBufState.clock, OutputStage.clock, hraised]
          have hkept : (state.output.outValid && !cycle.outReady).toNat ≤
              state.output.outValid.toNat := by
            cases state.output.outValid <;> simp [Bool.toNat_le]
          simp only [hpop, Bool.toNat_false, Bool.false_or] at hlength ⊢
          omega

end PktBufState.Sound

/-- What is held of complete packets has a packet end. -/
theorem PktBuf.Accounted.ends_pos {scfifo : Scfifo} {words : scfifo.State → List (BitVec 80)}
    {config : PktBufConfig scfifo} (hconfig : PktBuf.Accounted words config)
    (hframed : Framed L8Beat.endofpacket config.accepted)
    (hopen : config.transferred ≠ config.accepted) : 0 < config.state.ends words := by
  obtain ⟨sent, queued, haccepted, hqueue, hsent⟩ := hconfig.queued
  rw [List.map_id] at hsent
  rw [haccepted, ← hsent, List.append_assoc] at hframed hopen
  have hheld : config.state.output.offered ++ queued ≠ [] := by
    intro hnone
    exact hopen (by rw [hnone, List.append_nil])
  obtain ⟨packet, rest, hsplit, hpacket⟩ := hframed.of_append.split hheld
  obtain ⟨beat, hbeat, hlast⟩ := hpacket.exists_last
  have hmark : isEnd ∘ L8Beat.word = L8Beat.endofpacket := funext isEnd_word
  rw [PktBufState.ends, hqueue, List.countP_map, hmark, Nat.add_comm, ← List.countP_append,
    List.countP_pos_iff]
  exact ⟨beat, hsplit ▸ List.mem_append_left _ hbeat, hlast⟩

/-! ## Both circuits -/

namespace Transmitter

variable {scfifo : Scfifo} {words : scfifo.State → List (BitVec 80)}

/-- A beat in front of the packet buffer is more work than one in it. -/
def work (words : scfifo.State → List (BitVec 80)) (transmitter : Transmitter scfifo) : Nat :=
  20 * transmitter.toL8.state.held + transmitter.toL8.state.phase +
    transmitter.pktBuf.state.work words

/-- The clock edge as `ulong2_to_l8` sees it. -/
def toL8Cycle (transmitter : Transmitter scfifo) (cycle : Cycle (BitVec 128)) :
    Cycle (BitVec 128) :=
  { cycle with outReady := transmitter.pktBuf.state.fromL8Ready }

/-- A beat moves from the converter to the buffer. -/
def passes (transmitter : Transmitter scfifo) : Bool :=
  transmitter.toL8.state.output.outValid && transmitter.pktBuf.state.fromL8Ready

variable {transmitter : Transmitter scfifo} (hideal : scfifo.Ideal words)
  (haccounted : Accounted words transmitter) (cycle : Cycle (BitVec 128))

theorem length_accepts_pktIn (transmitter : Transmitter scfifo) (toL8Ready : Bool) :
    (transmitter.pktBuf.state.accepts (transmitter.pktIn toL8Ready)).length =
      transmitter.passes.toNat := by
  rw [accepts_pktIn, OutputStage.transfers, passes]
  split_ifs with hpasses <;> simp [hpasses]

include haccounted

/-- What a clock edge does in front of the packet buffer. -/
theorem step_held :
    (transmitter.step cycle).toL8.state.held + transmitter.passes.toNat =
      transmitter.toL8.state.held +
        (Converter.accepts transmitter.toL8.state cycle).length := by
  have hheld := held_clock ulong2ToL8 haccounted.toL8.sound (transmitter.toL8Cycle cycle)
  have haccepts : (Converter.accepts transmitter.toL8.state cycle).length =
      (cycle.inValid && transmitter.toL8.state.inReady).toNat := by
    unfold Converter.accepts
    split_ifs with haccepts <;> simp [haccepts]
  rw [haccepts]
  exact hheld

theorem step_phase_le (hstays : transmitter.passes = false) :
    (transmitter.step cycle).toL8.state.phase ≤ transmitter.toL8.state.phase :=
  phase_clock_le ulong2ToL8 haccounted.toL8.sound (transmitter.toL8Cycle cycle) hstays

include hideal

theorem step_buffer_le :
    (transmitter.step cycle).pktBuf.state.work words ≤
      transmitter.pktBuf.state.work words + 7 * transmitter.passes.toNat := by
  have hbuffer := haccounted.pktBuf.sound.work_clock_le hideal (transmitter.pktIn cycle.outReady)
  rwa [length_accepts_pktIn] at hbuffer

/-- Only a word that comes in is more work. -/
theorem step_work_le :
    (transmitter.step cycle).work words ≤ transmitter.work words +
      20 * (Converter.accepts transmitter.toL8.state cycle).length := by
  have hheld := step_held haccounted cycle
  have hbuffer := step_buffer_le hideal haccounted cycle
  have hphase := (transmitter.step cycle).toL8.state.phase_le
  rw [work, work]
  cases hpasses : transmitter.passes with
  | true =>
      rw [hpasses, Bool.toNat_true] at hheld hbuffer
      omega
  | false =>
      have hcloser := step_phase_le haccounted cycle hpasses
      rw [hpasses, Bool.toNat_false] at hheld hbuffer
      omega

/-- Edges at which the output is taken do some of the work, as long as the packet
buffer holds a packet end where it is all there is to go on with. -/
theorem step_work_lt (htaken : cycle.outReady = true)
    (hends : transmitter.pktBuf.state.fromL8Ready = false ∨
      transmitter.toL8.state.held = 0 ∧ cycle.inValid = false →
        0 < transmitter.pktBuf.state.ends words) :
    (transmitter.step cycle).work words < transmitter.work words +
      20 * (Converter.accepts transmitter.toL8.state cycle).length := by
  have hheld := step_held haccounted cycle
  have hbuffer := step_buffer_le hideal haccounted cycle
  have hphase := (transmitter.step cycle).toL8.state.phase_le
  rw [work, work]
  cases hpasses : transmitter.passes with
  | true =>
      rw [hpasses, Bool.toNat_true] at hheld hbuffer
      omega
  | false =>
      have hcloser := step_phase_le haccounted cycle hpasses
      rw [hpasses, Bool.toNat_false] at hheld hbuffer
      by_cases halone : transmitter.pktBuf.state.fromL8Ready = false ∨
          transmitter.toL8.state.held = 0 ∧ cycle.inValid = false
      · have hnone : transmitter.pktBuf.state.accepts (transmitter.pktIn cycle.outReady) = [] :=
          List.length_eq_zero_iff.mp (by rw [length_accepts_pktIn, hpasses]; rfl)
        have hless := haccounted.pktBuf.sound.work_clock_of_none hideal _ hnone (hends halone)
          htaken
        have hsame : (transmitter.step cycle).pktBuf.state =
            transmitter.pktBuf.state.clock (transmitter.pktIn cycle.outReady) := rfl
        rw [hsame]
        omega
      · -- the buffer is ready, and the converter comes closer to a beat
        rw [not_or, Bool.not_eq_false, not_and_or, Bool.not_eq_false] at halone
        have hvalid : transmitter.toL8.state.output.outValid = false := by
          simpa [passes, halone.1] using hpasses
        have hmore : transmitter.toL8.state.fifo.count ≠ 0 ∨ cycle.inValid = true := by
          simpa [ConverterState.held, hvalid] using halone.2
        have hless : (transmitter.step cycle).toL8.state.phase < transmitter.toL8.state.phase :=
          phase_clock_lt ulong2ToL8 haccounted.toL8.sound (transmitter.toL8Cycle cycle) hvalid hmore
        omega

end Transmitter

end IcmpServer.Rtl
