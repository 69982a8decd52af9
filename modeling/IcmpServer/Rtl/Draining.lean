import IcmpServer.Elastic.Packets
import IcmpServer.Rtl.StoreForward

/-! # Refusing and draining

The packet buffer stops its input at 2045 words or packets. With packets of at
most 2045 beats that many words contain a packet end, which the output side can
send: refusal ends as soon as the output is taken.
-/

namespace IcmpServer.Rtl

open Elastic

namespace PktBufState

variable {scfifo : Scfifo} {words : scfifo.State → List (BitVec 80)}

/-- The packet ends in the queue and in the output register. -/
def ends (words : scfifo.State → List (BitVec 80)) (state : PktBufState scfifo) : Nat :=
  (state.queue words).countP isEnd + state.output.offered.countP L8Beat.endofpacket

/-- What is left to do for the output side: words to pop, and between two pops the
flag to raise, a packet to count and a beat to transfer. -/
def work (words : scfifo.State → List (BitVec 80)) (state : PktBufState scfifo) : Nat :=
  4 * (state.queue words).length + (!state.output.queueDataExist).toNat + state.pktIn1d.toNat +
    state.output.outValid.toNat

namespace Sound

variable {state : PktBufState scfifo} (hideal : scfifo.Ideal words) (hsound : Sound words state)
include hideal hsound

/-- A packet end in the queue stays there or moves to the output register. -/
theorem ends_pos_clock (hend : 0 < (state.queue words).countP isEnd) (cycle : Cycle L8Beat) :
    0 < (state.clock cycle).ends words := by
  have hends := hsound.ends_clock hideal cycle
  cases hout : state.pktOut cycle.outReady with
  | false =>
      rw [hout, Bool.toNat_false, Nat.add_zero] at hends
      rw [ends, hends]
      omega
  | true =>
      obtain ⟨hlast, hpop⟩ := Bool.and_eq_true_iff.mp hout
      have hvalid : (state.clock cycle).output.outValid = true := by
        rw [PktBufState.clock, hsound.output.outValid_clock, hpop, Bool.true_or]
      have hfilled : (state.clock cycle).output.stage0 = queueBeat (scfifo.q state.fifo.inst) :=
        if_pos hpop
      have hoffered : (state.clock cycle).output.offered.countP L8Beat.endofpacket = 1 := by
        rw [OutputStage.offered, if_pos hvalid, hfilled]
        simp [hlast]
      rw [ends, hoffered]
      omega

/-- While nothing comes in and the output is taken, every edge does some of the work,
as long as a packet end is held. -/
theorem work_clock_of_none (cycle : Cycle L8Beat) (hnone : state.accepts cycle = [])
    (hends : 0 < state.ends words) (htaken : cycle.outReady = true) :
    (state.clock cycle).work words < state.work words := by
  have hlength := hsound.length_clock hideal cycle
  have hnoEnd : (state.clock cycle).pktIn1d = false := by
    have hrefused : (cycle.inValid && state.fromL8Ready) = false := by
      simpa [accepts] using hnone
    rw [PktBufState.clock, pktIn, Bool.and_assoc, hrefused, Bool.and_false]
  have hpop : state.output.queuePop cycle.outReady = state.output.queueDataExist := by
    rw [hsound.output.queuePop_eq, htaken, Bool.or_true, Bool.and_true]
  have hvalid : (state.clock cycle).output.outValid = state.output.queueDataExist := by
    rw [PktBufState.clock, hsound.output.outValid_clock, hpop, htaken]
    simp
  rw [hnone, hpop, List.length_nil, Nat.add_zero] at hlength
  rw [work, work, hnoEnd, hvalid, Bool.toNat_false, Nat.add_zero]
  cases hexist : state.output.queueDataExist with
  | true =>
      rw [hexist, Bool.toNat_true] at hlength
      have hflag := (!(state.clock cycle).output.queueDataExist).toNat_le
      simp only [Bool.toNat_true, Bool.not_true, Bool.toNat_false]
      omega
  | false =>
      rw [hexist, Bool.toNat_false, Nat.add_zero] at hlength
      simp only [Bool.toNat_false, Bool.not_false, Bool.toNat_true, Nat.add_zero, hlength]
      have hcount := hsound.toNat_nextQueuePktCount hideal cycle.outReady
      have hstays : state.pktOut cycle.outReady = false := by simp [pktOut, hpop, hexist]
      rw [hstays, Bool.toNat_false, Nat.add_zero] at hcount
      have hpackets := hsound.packets
      have hfew := (state.queue words).countP_le_length (p := isEnd)
      by_cases hcounted : (state.nextQueuePktCount cycle.outReady).toNat = 0
      · -- the only ends left are the one not yet counted and the one at the output
        have hoffered : state.output.offered.countP L8Beat.endofpacket ≤
            state.output.outValid.toNat := by
          refine Nat.le_trans List.countP_le_length ?_
          cases hoffers : state.output.outValid <;> simp [OutputStage.offered, hoffers]
        have hflag := (!(state.clock cycle).output.queueDataExist).toNat_le
        rw [ends] at hends
        omega
      · have hraised : (state.clock cycle).output.queueDataExist = true := by
          apply (nextQueueDataExist_iff hideal state cycle.outReady).mpr
          rw [hpop, hexist]
          exact ⟨by simp; omega, hcounted⟩
        rw [hraised]
        simp only [Bool.not_true, Bool.toNat_false]
        omega

/-- While the input is refused and the output taken, every edge does some of the
work, as long as a packet end is held. -/
theorem work_clock (hrefuses : state.fromL8Ready = false) (hends : 0 < state.ends words)
    (cycle : Cycle L8Beat) (htaken : cycle.outReady = true) :
    (state.clock cycle).work words < state.work words :=
  hsound.work_clock_of_none hideal cycle (by simp [accepts, hrefuses]) hends htaken

end Sound

end PktBufState

namespace PktBuf

variable {scfifo : Scfifo} {words : scfifo.State → List (BitVec 80)}

/-- Of the accepted beats that are held, one ends a packet. -/
def HoldsEnd (words : scfifo.State → List (BitVec 80)) (config : PktBufConfig scfifo) : Prop :=
  ∃ queued, config.accepted = config.transferred ++ config.state.output.offered ++ queued ∧
    config.state.queue words = queued.map L8Beat.word ∧
    ∃ beat ∈ config.state.output.offered ++ queued, beat.endofpacket = true

theorem Accounted.holdsEnd {config : PktBufConfig scfifo} (hconfig : Accounted words config)
    (hends : 0 < config.state.ends words) : HoldsEnd words config := by
  obtain ⟨sent, queued, haccepted, hqueue, hsent⟩ := hconfig.queued
  rw [List.map_id] at hsent
  refine ⟨queued, by rw [hsent, haccepted], hqueue, ?_⟩
  have hmark : isEnd ∘ L8Beat.word = L8Beat.endofpacket := funext isEnd_word
  rw [PktBufState.ends, hqueue, List.countP_map, hmark, Nat.add_comm, ← List.countP_append]
    at hends
  exact List.countP_pos_iff.mp hends

/-- Reached with the first beats of the stream as input, and with a packet end held
while the input is refused. -/
structure Supplied (words : scfifo.State → List (BitVec 80)) (stream : List (List L8Beat))
    (config : PktBufConfig scfifo) : Prop where
  accounted : Accounted words config
  accepted : config.accepted <+: stream.flatten
  ends : config.state.fromL8Ready = false → 0 < config.state.ends words

variable {stream : List (List L8Beat)} (hideal : scfifo.Ideal words)
  (hstream : ∀ packet ∈ stream, IsPacket L8Beat.endofpacket packet ∧ packet.length ≤ 2045)
include hideal hstream

/-- A refusal follows from 2045 words or from 2045 packets. -/
theorem Accounted.ends_pos_step {config : PktBufConfig scfifo} (hconfig : Accounted words config)
    (haccepted : config.accepted <+: stream.flatten) (cycle : Cycle L8Beat)
    (hrefuses : (step config cycle).state.fromL8Ready = false) :
    0 < (step config cycle).state.ends words := by
  obtain ⟨hsound, hqueued⟩ := hconfig
  simp only [step, PktBufState.clock, Bool.not_eq_false', Bool.or_eq_true, decide_eq_true_eq,
    BitVec.le_def] at hrefuses
  rcases hrefuses with hwords | hpackets
  · apply hsound.ends_pos_clock hideal
    obtain ⟨sent, queued, hsplit, hqueue, -⟩ := hqueued
    have hlength : 2045 ≤ queued.length := by
      rw [hsound.usedw hideal, hqueue, List.length_map] at hwords
      exact hwords
    rw [hsplit] at haccepted
    obtain ⟨beat, hbeat, hlast⟩ :=
      exists_last_of_window (by decide) hstream haccepted hlength
    rw [hqueue, List.countP_pos_iff]
    exact ⟨beat.word, List.mem_map_of_mem hbeat, by rw [isEnd_word, hlast]⟩
  · have hcounted := (hsound.clock hideal cycle).packets
    have hnext : 2045 ≤ (config.state.clock cycle).queuePktCount.toNat := hpackets
    rw [PktBufState.ends]
    simp only [step]
    omega

/-- Nothing is accepted while the input is refused. -/
theorem Supplied.step {config : PktBufConfig scfifo} (hsupplied : Supplied words stream config)
    (hrefuses : config.state.fromL8Ready = false) (cycle : Cycle L8Beat) :
    Supplied words stream (step config cycle) where
  accounted := step_accounted hideal config cycle hsupplied.accounted
  accepted := by
    have hnone : config.state.accepts cycle = [] := by simp [PktBufState.accepts, hrefuses]
    rw [PktBuf.step, hnone, List.append_nil]
    exact hsupplied.accepted
  ends := hsupplied.accounted.ends_pos_step hideal hstream hsupplied.accepted cycle

/-- Refused input is accepted again while the output is taken. -/
theorem Supplied.drains {config : PktBufConfig scfifo} (hsupplied : Supplied words stream config)
    (later : List (Cycle L8Beat)) (htaken : ∀ cycle ∈ later, cycle.outReady = true)
    (hlater : 8188 ≤ later.length) :
    ∃ soon, soon <+: later ∧ (run config soon).state.fromL8Ready = true := by
  apply exists_reached PktBuf.step (Supplied words stream)
    (fun config => config.state.fromL8Ready = true) (fun cycle => cycle.outReady = true)
    (fun config => config.state.work words) _ _ later config hsupplied htaken
  · have hbound := hsupplied.accounted.sound.bounded
    have hflag := (!config.state.output.queueDataExist).toNat_le
    have hcounting := config.state.pktIn1d.toNat_le
    have hvalid := config.state.output.outValid.toNat_le
    rw [PktBufState.work]
    omega
  · intro config cycle hsupplied hrefuses _
    exact hsupplied.step hideal hstream (eq_false_of_ne_true hrefuses) cycle
  · intro config cycle hsupplied hrefuses htaken
    have hready := eq_false_of_ne_true hrefuses
    exact hsupplied.accounted.sound.work_clock hideal hready (hsupplied.ends hready) cycle htaken

/-- In every run from reset with packets of at most 2045 beats, a refusal after the
first clock edge means that the end of a packet is held, and the input is accepted
again while the output is taken. -/
theorem pktBuf_neverStuck (cycles : List (Cycle L8Beat)) (hcycles : cycles ≠ [])
    (haccepted : (run (start scfifo) cycles).accepted <+: stream.flatten)
    (hrefuses : (run (start scfifo) cycles).state.fromL8Ready = false) :
    HoldsEnd words (run (start scfifo) cycles) ∧
      ∀ later, (∀ cycle ∈ later, cycle.outReady = true) → 8188 ≤ later.length →
        ∃ soon, soon <+: later ∧
          (run (start scfifo) (cycles ++ soon)).state.fromL8Ready = true := by
  have hconfig := run_accounted hideal cycles
  have hends : 0 < (run (start scfifo) cycles).state.ends words := by
    cases cycles using List.reverseRecOn with
    | nil => exact absurd rfl hcycles
    | append_singleton front cycle =>
        have hrun : run (start scfifo) (front ++ [cycle]) =
            PktBuf.step (run (start scfifo) front) cycle := run_append _ front [cycle]
        rw [hrun] at haccepted hrefuses ⊢
        refine (run_accounted hideal front).ends_pos_step hideal hstream ?_ cycle hrefuses
        exact (List.prefix_append _ _).trans haccepted
  refine ⟨hconfig.holdsEnd hends, ?_⟩
  intro later htaken hlater
  have hsupplied : Supplied words stream (run (start scfifo) cycles) :=
    ⟨hconfig, haccepted, fun _ => hends⟩
  obtain ⟨soon, hsoon, hready⟩ := hsupplied.drains hideal hstream later htaken hlater
  refine ⟨soon, hsoon, ?_⟩
  rwa [run_append]

/-! ## A packet of 2045 beats -/

def middleBeat : L8Beat :=
  ⟨0#64, false, false, 0#3⟩

def finalBeat : L8Beat :=
  ⟨0#64, false, true, 0#3⟩

def longestPkt : List L8Beat :=
  List.replicate 2044 middleBeat ++ [finalBeat]

/-- After a cycle without input the packet, a beat in every cycle, and another cycle
without input; nothing is taken at the output. -/
def longestPktCycles : List (Cycle L8Beat) :=
  refusal :: List.replicate 2044 ⟨middleBeat, true, false⟩ ++
    [⟨finalBeat, true, false⟩, refusal]

/-- The registers while words of an incomplete packet come in. -/
def filling (count : Nat) : PktBufState Scfifo.list :=
  ⟨⟨List.replicate count middleBeat.word, false⟩, true, false, false, 0#12, OutputStage.reset⟩

omit hideal hstream

theorem isPacket_longestPkt : IsPacket L8Beat.endofpacket longestPkt := by
  refine IsPacket.append ?_ (.final rfl)
  intro beat hbeat
  rw [List.eq_of_mem_replicate hbeat]
  rfl

theorem length_longestPkt : longestPkt.length = 2045 := by
  rw [longestPkt, List.length_append, List.length_replicate, List.length_singleton]

theorem usedw_list (held : List (BitVec 80)) (hbound : held.length < 2048) :
    (⟨held, false⟩ : Fifo80x2048 Scfifo.list).usedw.toNat = held.length := by
  have hnotFull : (BitVec.ofBool false).toNat = 0 := rfl
  rw [Fifo80x2048.usedw, BitVec.toNat_append, hnotFull, Nat.zero_shiftLeft, Nat.zero_or]
  exact Nat.mod_eq_of_lt hbound

theorem nextQueuePktCount_filling (count : Nat) :
    (filling count).nextQueuePktCount false = 0#12 := by
  have hpop : (filling count).output.queuePop false = false := rfl
  rw [PktBufState.nextQueuePktCount, PktBufState.pktOut, hpop, Bool.and_false]
  rfl

theorem usedw_filling (count : Nat) (hcount : count < 2045) :
    decide (2045#12 ≤ (filling count).fifo.usedw) = false := by
  have husedw := usedw_list (List.replicate count middleBeat.word) (by simp; omega)
  rw [List.length_replicate] at husedw
  rw [decide_eq_false_iff_not, BitVec.le_def, filling, husedw]
  exact Nat.not_le.mpr hcount

theorem full_filling (count : Nat) (hcount : count < 2045) :
    Scfifo.list.full (filling count).fifo.inst = false := by
  simp only [Scfifo.list, filling, List.length_replicate, decide_eq_false_iff_not]
  omega

theorem filling_clock (count : Nat) (hcount : count < 2045) :
    (filling count).clock ⟨middleBeat, true, false⟩ = filling (count + 1) := by
  have hpop : (filling count).output.queuePop false = false := rfl
  have hwrite : (true && (filling count).fromL8Ready) = true := rfl
  have hidle : (filling count).nextQueueDataExist false = false := by
    simp [PktBufState.nextQueueDataExist, nextQueuePktCount_filling]
  have hinst : Scfifo.list.clock (filling count).fifo.inst middleBeat.word false true =
      (filling (count + 1)).fifo.inst := by
    simp [Scfifo.list, filling, queueStep, List.replicate_succ']
  simp only [PktBufState.clock, Fifo80x2048.clock, usedw_filling count hcount,
    full_filling count hcount, nextQueuePktCount_filling, hidle, hpop, hwrite, hinst]
  rfl

/-- Words of an incomplete packet stay in the queue. -/
theorem run_filling (count more : Nat) (hmore : count + more ≤ 2045) (accepted : List L8Beat) :
    run ⟨filling count, accepted, []⟩ (List.replicate more ⟨middleBeat, true, false⟩) =
      ⟨filling (count + more), accepted ++ List.replicate more middleBeat, []⟩ := by
  induction more generalizing count accepted with
  | zero => rw [List.replicate_zero, List.replicate_zero, List.append_nil]; rfl
  | succ more ih =>
      have hstep : step ⟨filling count, accepted, []⟩ ⟨middleBeat, true, false⟩ =
          ⟨filling (count + 1), accepted ++ [middleBeat], []⟩ := by
        rw [step, filling_clock count (by omega)]
        rfl
      have hrest := ih (count + 1) (by omega) (accepted ++ [middleBeat])
      rw [List.replicate_succ, run, List.foldl_cons, hstep]
      rw [List.append_assoc, Nat.add_assoc, Nat.add_comm 1 more] at hrest
      exact hrest

/-- The final beat is accepted, and with 2045 words the edge behind it refuses input. -/
theorem run_finalBeat (count : Nat) (hcount : count = 2044) (accepted : List L8Beat) :
    (run ⟨filling count, accepted, []⟩ [⟨finalBeat, true, false⟩, refusal]).accepted =
        accepted ++ [finalBeat] ∧
      (run ⟨filling count, accepted, []⟩
        [⟨finalBeat, true, false⟩, refusal]).state.fromL8Ready = false := by
  refine ⟨List.append_nil _, ?_⟩
  have hfifo : ((filling count).clock ⟨finalBeat, true, false⟩).fifo =
      ⟨List.replicate count middleBeat.word ++ [finalBeat.word], false⟩ := by
    simp only [PktBufState.clock, Fifo80x2048.clock, full_filling count (by omega)]
    rfl
  have hheld : (List.replicate count middleBeat.word ++ [finalBeat.word]).length = 2045 := by
    rw [List.length_append, List.length_replicate, List.length_singleton, hcount]
  have husedw := usedw_list _ (Nat.lt_of_le_of_lt (Nat.le_of_eq hheld) (by decide))
  have hlimit : 2045#12 ≤ ((filling count).clock ⟨finalBeat, true, false⟩).fifo.usedw := by
    rw [BitVec.le_def, hfifo, husedw, hheld]
    exact Nat.le_refl 2045
  change (((filling count).clock ⟨finalBeat, true, false⟩).clock refusal).fromL8Ready = false
  rw [PktBufState.clock, decide_eq_true hlimit, Bool.true_or]
  rfl

/-- The whole packet is accepted, and then the input refused. -/
theorem run_longestPktCycles :
    (run (start Scfifo.list) longestPktCycles).accepted = longestPkt ∧
      (run (start Scfifo.list) longestPktCycles).state.fromL8Ready = false := by
  have hsplit : ∀ fill rest : List (Cycle L8Beat),
      run (start Scfifo.list) (refusal :: fill ++ rest) =
        run (run ⟨filling 0, [], []⟩ fill) rest := by
    intro fill rest
    exact run_append (start Scfifo.list) (refusal :: fill) rest
  have hfill := run_filling 0 2044 (by decide) []
  rw [Nat.zero_add, List.nil_append] at hfill
  rw [longestPktCycles, hsplit, hfill]
  exact run_finalBeat 2044 rfl (List.replicate 2044 middleBeat)

theorem pktBuf_neverStuck_longestPkt :
    HoldsEnd id (run (start Scfifo.list) longestPktCycles) ∧
      ∀ later, (∀ cycle ∈ later, cycle.outReady = true) → 8188 ≤ later.length →
        ∃ soon, soon <+: later ∧
          (run (start Scfifo.list) (longestPktCycles ++ soon)).state.fromL8Ready = true := by
  have hstream : ∀ packet ∈ [longestPkt],
      IsPacket L8Beat.endofpacket packet ∧ packet.length ≤ 2045 := by
    intro packet hpacket
    obtain rfl := List.mem_singleton.mp hpacket
    exact ⟨isPacket_longestPkt, Nat.le_of_eq length_longestPkt⟩
  obtain ⟨haccepted, hrefuses⟩ := run_longestPktCycles
  refine pktBuf_neverStuck Scfifo.list_ideal hstream longestPktCycles ?_ ?_ hrefuses
  · exact List.append_ne_nil_of_left_ne_nil (List.cons_ne_nil _ _) _
  · have hwhole : [longestPkt].flatten = longestPkt := List.flatten_singleton
    exact (haccepted.trans hwhole.symm) ▸ List.prefix_rfl

end PktBuf

end IcmpServer.Rtl
