import IcmpServer.Elastic.Rounds
import IcmpServer.Rtl.PktBuf
import Mathlib.Data.List.Induction

/-! # Store and forward

The packet count lags the queue by the two delayed flags and by nothing else, so
a positive count promises a whole packet in the queue. While the middle of a
packet is offered at the output, the rest of it is still in the queue, and the
data-exist flag stays up.
-/

namespace IcmpServer.Rtl

open Elastic

/-- The word ends a packet. -/
def isEnd (word : BitVec 80) : Bool :=
  (queueBeat word).endofpacket

theorem isEnd_word (beat : L8Beat) : isEnd beat.word = beat.endofpacket := by
  rw [isEnd, queueBeat_word]

/-- The count as the source updates it, without wrapping. -/
theorem toNat_nextQueuePktCountF (queuePktCount : BitVec 12) (pktIn pktOut : Bool)
    (hout : pktOut = true → queuePktCount.toNat ≠ 0) (hbound : queuePktCount.toNat < 4095) :
    (nextQueuePktCountF queuePktCount pktIn pktOut).toNat + pktOut.toNat =
      queuePktCount.toNat + pktIn.toNat := by
  cases pktIn <;> cases pktOut <;> simp [nextQueuePktCountF] at hout ⊢ <;> bv_omega

namespace PktBufState

variable {scfifo : Scfifo} {words : scfifo.State → List (BitVec 80)}

/-- The words in the queue. -/
def queue (words : scfifo.State → List (BitVec 80)) (state : PktBufState scfifo) :
    List (BitVec 80) :=
  words state.fifo.inst

/-- Holds in every reachable state of a packet buffer. -/
structure Sound (words : scfifo.State → List (BitVec 80)) (state : PktBufState scfifo) : Prop where
  output : state.output.Sound
  ready : state.fromL8Ready = true → (state.queue words).length ≤ 2045
  bounded : (state.queue words).length ≤ 2046
  full1d : state.fifo.full1d = false
  packets : state.queuePktCount.toNat + state.pktIn1d.toNat + state.pktIn2d.toNat =
    (state.queue words).countP isEnd
  exist : state.output.queueDataExist = true →
    state.queue words ≠ [] ∧ state.queuePktCount.toNat ≠ 0
  /-- A packet that is offered has its remaining beats in the queue. -/
  supply : state.output.outValid = true → state.output.stage0.endofpacket = false →
    state.output.queueDataExist = true

/-- The data-exist flag after the edge: a word and a packet stay. -/
theorem nextQueueDataExist_iff (hideal : scfifo.Ideal words) (state : PktBufState scfifo)
    (toL8Ready : Bool) :
    state.nextQueueDataExist toL8Ready = true ↔
      (state.output.queuePop toL8Ready).toNat < (state.queue words).length ∧
        (state.nextQueuePktCount toL8Ready).toNat ≠ 0 := by
  have hnonzero : state.nextQueuePktCount toL8Ready = 0#12 ↔
      (state.nextQueuePktCount toL8Ready).toNat = 0 := by
    rw [← BitVec.toNat_inj, BitVec.toNat_zero]
  simp only [nextQueueDataExist, hideal.empty, hideal.almostEmpty, Bool.and_eq_true,
    Bool.or_eq_true, Bool.not_eq_true', decide_eq_false_iff_not, bne_iff_ne, ne_eq, hnonzero,
    PktBufState.queue]
  cases state.output.queuePop toL8Ready <;>
    simp only [Bool.toNat_true, Bool.toNat_false, Bool.true_eq_false, or_true, or_false,
      and_true] <;>
    omega

namespace Sound

variable {state : PktBufState scfifo}

theorem reset (hideal : scfifo.Ideal words) :
    Sound words (PktBufState.reset : PktBufState scfifo) := by
  have hempty : (PktBufState.reset : PktBufState scfifo).queue words = [] := hideal.aclr
  refine ⟨⟨rfl⟩, by simp [PktBufState.reset], by simp [hempty], ?_,
    by rw [hempty]; simp [PktBufState.reset],
    by simp [PktBufState.reset, OutputStage.reset], by simp [PktBufState.reset, OutputStage.reset]⟩
  simp [PktBufState.reset, Fifo80x2048.reset, hideal.full, hideal.aclr]

variable (hideal : scfifo.Ideal words) (hsound : Sound words state)
include hideal hsound

/-- The queue is never popped when it is empty, and never without a packet. -/
theorem pop (toL8Ready : Bool) (hpop : state.output.queuePop toL8Ready = true) :
    state.queue words = scfifo.q state.fifo.inst :: (state.queue words).tail ∧
      state.queuePktCount.toNat ≠ 0 := by
  obtain ⟨hne, hcount⟩ := hsound.exist (OutputStage.exist_of_pop toL8Ready hpop)
  refine ⟨?_, hcount⟩
  cases hqueue : state.queue words with
  | nil => exact absurd hqueue hne
  | cons word rest => rw [hideal.q _ word rest hqueue]; rfl

/-- A clock edge is a step of the queue. -/
theorem queue_clock (cycle : Cycle L8Beat) :
    (state.clock cycle).queue words =
      queueStep (state.queue words) (state.output.queuePop cycle.outReady)
        ((state.accepts cycle).map L8Beat.word) := by
  refine (hideal.clock _ _ _ _ ?_ ?_).trans ?_
  · intro hpop
    exact (hsound.exist (OutputStage.exist_of_pop cycle.outReady hpop)).1
  · intro _
    exact Nat.lt_of_le_of_lt hsound.bounded (by omega)
  · cases hwrite : (cycle.inValid && state.fromL8Ready) <;>
      simp [PktBufState.accepts, hwrite, PktBufState.queue]

/-- The count is exact: it neither wraps below zero nor above its width. -/
theorem toNat_nextQueuePktCount (toL8Ready : Bool) :
    (state.nextQueuePktCount toL8Ready).toNat + (state.pktOut toL8Ready).toNat =
      state.queuePktCount.toNat + state.pktIn2d.toNat := by
  have hpackets := hsound.packets
  have hfew := (state.queue words).countP_le_length (p := isEnd)
  have hbound := hsound.bounded
  refine toNat_nextQueuePktCountF _ _ _ ?_ (by omega)
  intro hout
  exact (hsound.pop hideal toL8Ready (Bool.and_eq_true_iff.mp hout).2).2

theorem usedw : state.fifo.usedw.toNat = (state.queue words).length := by
  have hbound := hsound.bounded
  have husedw := hideal.usedw state.fifo.inst
  have hnotFull : (BitVec.ofBool false).toNat = 0 := rfl
  rw [Fifo80x2048.usedw, hsound.full1d, husedw, BitVec.toNat_append]
  rw [hnotFull, Nat.zero_shiftLeft, Nat.zero_or, BitVec.toNat_ofNat]
  exact Nat.mod_eq_of_lt (Nat.lt_of_le_of_lt hbound (by decide))

/-- The data-exist flag stays up while a packet is under way. -/
theorem nextQueueDataExist_of_mid (toL8Ready : Bool)
    (hexist : state.output.queueDataExist = true) (hmid : state.pktOut toL8Ready = false) :
    state.nextQueueDataExist toL8Ready = true := by
  obtain ⟨hne, hcount⟩ := hsound.exist hexist
  have hnext := hsound.toNat_nextQueuePktCount hideal toL8Ready
  rw [nextQueueDataExist_iff hideal]
  rw [hmid] at hnext
  refine ⟨?_, by simp at hnext; omega⟩
  cases hpop : state.output.queuePop toL8Ready with
  | false => simpa using List.length_pos_iff.mpr hne
  | true =>
      -- the packet counted ends behind the word popped
      have hfront := (hsound.pop hideal toL8Ready hpop).1
      have hpackets := hsound.packets
      have hmiddle : isEnd (scfifo.q state.fifo.inst) = false := by
        simpa [pktOut, hpop, isEnd] using hmid
      rw [hfront, List.countP_cons_of_neg (by simp [hmiddle])] at hpackets
      have hrest := (state.queue words).tail.countP_le_length (p := isEnd)
      rw [hfront, List.length_cons]
      simp only [Bool.toNat_true]
      omega

/-- Words in the queue over a clock edge. -/
theorem length_clock (cycle : Cycle L8Beat) :
    ((state.clock cycle).queue words).length + (state.output.queuePop cycle.outReady).toNat =
      (state.queue words).length + (state.accepts cycle).length := by
  rw [hsound.queue_clock hideal cycle, queueStep]
  cases hpop : state.output.queuePop cycle.outReady with
  | false => simp
  | true =>
      rw [(hsound.pop hideal cycle.outReady hpop).1]
      simp
      omega

/-- Packet ends in the queue over a clock edge. -/
theorem ends_clock (cycle : Cycle L8Beat) :
    ((state.clock cycle).queue words).countP isEnd + (state.pktOut cycle.outReady).toNat =
      (state.queue words).countP isEnd + (state.pktIn cycle).toNat := by
  have hin : ((state.accepts cycle).map L8Beat.word).countP isEnd =
      (state.pktIn cycle).toNat := by
    cases hwrite : (cycle.inValid && state.fromL8Ready) <;>
      cases hend : cycle.inData.endofpacket <;>
      simp [PktBufState.accepts, PktBufState.pktIn, hwrite, hend, isEnd_word]
  rw [hsound.queue_clock hideal cycle, queueStep, List.countP_append, hin]
  cases hpop : state.output.queuePop cycle.outReady with
  | false => simp [pktOut, hpop]
  | true =>
      rw [(hsound.pop hideal cycle.outReady hpop).1]
      cases hend : isEnd (scfifo.q state.fifo.inst) <;>
        simp_all [pktOut, isEnd]
      omega

/-- Every clock edge keeps what the registers know of each other. -/
theorem clock (cycle : Cycle L8Beat) : Sound words (state.clock cycle) := by
  have hcount := hsound.toNat_nextQueuePktCount hideal cycle.outReady
  have hpackets := hsound.packets
  have hbound := hsound.bounded
  have hlength := hsound.length_clock hideal cycle
  have hends := hsound.ends_clock hideal cycle
  have haccepts : (state.accepts cycle).length ≤ 1 := by
    unfold PktBufState.accepts
    split_ifs <;> simp
  refine ⟨state.output.clock_sound _ _ _, ?_, ?_, ?_, ?_, ?_, ?_⟩
  · intro hready
    have husedw := hsound.usedw hideal
    have hroom : state.fifo.usedw.toNat < 2045 := by
      simp only [PktBufState.clock, Bool.not_eq_true', Bool.or_eq_false_iff,
        decide_eq_false_iff_not, BitVec.le_def] at hready
      exact Nat.not_le.mp hready.1
    omega
  · cases hwrite : (cycle.inValid && state.fromL8Ready) with
    | false =>
        simp only [PktBufState.accepts, hwrite, Bool.false_eq_true, if_false, List.length_nil]
          at hlength
        omega
    | true =>
        have hready := hsound.ready (Bool.and_eq_true_iff.mp hwrite).2
        omega
  · refine (hideal.full _).trans (decide_eq_false ?_)
    simp only [PktBufState.queue] at hbound
    omega
  · simp only [PktBufState.clock] at hends ⊢
    omega
  · intro hexist
    obtain ⟨hword, hpacket⟩ := (nextQueueDataExist_iff hideal state cycle.outReady).mp hexist
    refine ⟨List.ne_nil_of_length_pos ?_, hpacket⟩
    omega
  · intro hvalid hend
    rw [PktBufState.clock, hsound.output.outValid_clock] at hvalid
    cases hpop : state.output.queuePop cycle.outReady with
    | true =>
        refine hsound.nextQueueDataExist_of_mid hideal _
          (OutputStage.exist_of_pop cycle.outReady hpop) ?_
        have hfilled : (state.clock cycle).output.stage0 = queueBeat (scfifo.q state.fifo.inst) :=
          if_pos hpop
        rw [hfilled] at hend
        simp [pktOut, hend]
    | false =>
        have hstays : state.output.outValid = true := by
          rw [hpop] at hvalid
          exact (Bool.and_eq_true_iff.mp hvalid).1
        have hkept : (state.clock cycle).output.stage0 = state.output.stage0 :=
          if_neg (ne_true_of_eq_false hpop)
        rw [hkept] at hend
        apply hsound.nextQueueDataExist_of_mid hideal _ (hsound.supply hstays hend)
        simp [pktOut, hpop]

end Sound

end PktBufState

/-! ## The account of a run -/

namespace PktBuf

variable {scfifo : Scfifo} {words : scfifo.State → List (BitVec 80)}

/-- What holds of every configuration reached from reset. -/
structure Accounted (words : scfifo.State → List (BitVec 80)) (config : PktBufConfig scfifo) :
    Prop where
  sound : config.state.Sound words
  /-- The accepted beats are those transferred or offered, and those in the queue. -/
  queued : Queued L8Beat.word id config.accepted (config.state.queue words)
    (config.transferred ++ config.state.output.offered)

theorem Accounted.offered_isPrefix {config : PktBufConfig scfifo}
    (hconfig : Accounted words config) :
    config.transferred ++ config.state.output.offered <+: config.accepted := by
  have hinitial := hconfig.queued.sent_isPrefix
  rwa [List.map_id] at hinitial

/-- The packet of an offered beat has been accepted to its end. -/
theorem Accounted.packet_accepted {config : PktBufConfig scfifo} (hconfig : Accounted words config)
    (hvalid : config.state.output.outValid = true) :
    ∃ rest, config.accepted = config.transferred ++ config.state.output.stage0 :: rest ∧
      ∃ beat ∈ config.state.output.stage0 :: rest, beat.endofpacket = true := by
  obtain ⟨sent, queued, haccepted, hqueue, hsent⟩ := hconfig.queued
  rw [List.map_id] at hsent
  have hoffered : config.state.output.offered = [config.state.output.stage0] := if_pos hvalid
  rw [hoffered] at hsent
  refine ⟨queued, by rw [haccepted, ← hsent]; simp, ?_⟩
  cases hend : config.state.output.stage0.endofpacket with
  | true => exact ⟨_, List.mem_cons_self, hend⟩
  | false =>
      -- within a packet the flag is up, so the count knows an end in the queue
      have hcount := (hconfig.sound.exist (hconfig.sound.supply hvalid hend)).2
      have hpackets := hconfig.sound.packets
      have hsome : 0 < (config.state.queue words).countP isEnd := by omega
      rw [hqueue] at hsome
      obtain ⟨word, hword, hisEnd⟩ := List.countP_pos_iff.mp hsome
      obtain ⟨beat, hbeat, rfl⟩ := List.mem_map.mp hword
      exact ⟨beat, List.mem_cons_of_mem _ hbeat, by rwa [isEnd_word] at hisEnd⟩

/-- A clock edge at which no packet end is transferred keeps the output valid. -/
theorem Accounted.outValid_step {config : PktBufConfig scfifo} (hconfig : Accounted words config)
    (cycle : Cycle L8Beat) (hvalid : config.state.output.outValid = true)
    (hmid : ∀ beat ∈ config.state.output.transfers cycle.outReady, beat.endofpacket = false) :
    (step config cycle).state.output.outValid = true := by
  have houtput := hconfig.sound.output
  apply (houtput.outValid_clock _ _ _).trans
  rw [houtput.queuePop_eq, hvalid]
  cases hready : cycle.outReady with
  | false => simp
  | true =>
      have hend : config.state.output.stage0.endofpacket = false :=
        hmid _ (by simp [OutputStage.transfers, hvalid, hready])
      simp [hconfig.sound.supply hvalid hend]

variable (hideal : scfifo.Ideal words)
include hideal

theorem start_accounted : Accounted words (start scfifo) := by
  refine ⟨PktBufState.Sound.reset hideal, ?_⟩
  have hempty : (start scfifo).state.queue words = [] := hideal.aclr
  rw [hempty]
  exact Queued.nil

theorem step_accounted (config : PktBufConfig scfifo) (cycle : Cycle L8Beat)
    (hconfig : Accounted words config) : Accounted words (step config cycle) := by
  obtain ⟨hsound, hqueued⟩ := hconfig
  refine ⟨hsound.clock hideal cycle, ?_⟩
  have hsent : (step config cycle).transferred ++ (step config cycle).state.output.offered =
      config.transferred ++ config.state.output.offered ++
        if config.state.output.queuePop cycle.outReady then
          [queueBeat (scfifo.q config.state.fifo.inst)] else [] := by
    rw [List.append_assoc, ← hsound.output.transfers_append_offered cycle.outReady
      (config.state.nextQueueDataExist cycle.outReady), ← List.append_assoc]
    rfl
  rw [hsent]
  refine (hsound.queue_clock hideal cycle).symm ▸
    hqueued.step queueBeat queueBeat_word _ _ fun hpop => (hsound.pop hideal _ hpop).1

theorem run_accounted (cycles : List (Cycle L8Beat)) :
    Accounted words (run (start scfifo) cycles) :=
  foldl_invariant (fun config cycle => step_accounted hideal config cycle) cycles _
    (start_accounted hideal)

/-! ## What a run guarantees -/

/-- The guarantees of the packet buffer at one moment of a run. -/
structure Lossless (words : scfifo.State → List (BitVec 80)) (config : PktBufConfig scfifo) :
    Prop where
  /-- The transferred beats are the first accepted ones, unchanged and in order. -/
  transferred : config.transferred <+: config.accepted
  /-- The accepted beats are those transferred, the one in the output register and
  those in the queue. -/
  queued : Queued L8Beat.word id config.accepted (config.state.queue words)
    (config.transferred ++ config.state.output.offered)
  bounded : (config.state.queue words).length ≤ 2046
  full : scfifo.full config.state.fifo.inst = false ∧ config.state.fifo.full1d = false
  nonempty : ∀ toL8Ready, config.state.output.queuePop toL8Ready = true →
    scfifo.empty config.state.fifo.inst = false
  /-- The count and the flags on their way to it are the packet ends in the queue. -/
  packets : config.state.queuePktCount.toNat + config.state.pktIn1d.toNat +
    config.state.pktIn2d.toNat = (config.state.queue words).countP isEnd
  /-- Counting a packet in and out does not wrap. -/
  count : ∀ toL8Ready,
    (config.state.nextQueuePktCount toL8Ready).toNat + (config.state.pktOut toL8Ready).toNat =
      config.state.queuePktCount.toNat + config.state.pktIn2d.toNat

theorem Accounted.lossless {config : PktBufConfig scfifo} (hconfig : Accounted words config) :
    Lossless words config where
  transferred := (List.prefix_append _ _).trans hconfig.offered_isPrefix
  queued := hconfig.queued
  bounded := hconfig.sound.bounded
  full := by
    refine ⟨(hideal.full _).trans (decide_eq_false ?_), hconfig.sound.full1d⟩
    have hbound := hconfig.sound.bounded
    simp only [PktBufState.queue] at hbound
    omega
  nonempty toL8Ready hpop := by
    have hne := (hconfig.sound.exist (OutputStage.exist_of_pop toL8Ready hpop)).1
    refine (hideal.empty _).trans (decide_eq_false fun hlength => hne ?_)
    exact List.length_eq_zero_iff.mp hlength
  packets := hconfig.sound.packets
  count := hconfig.sound.toNat_nextQueuePktCount hideal

/-- In every run from reset the packet buffer transfers the accepted beats in order
and unchanged, loses none, and counts the packets in its queue without wrapping. -/
theorem pktBuf_lossless (cycles : List (Cycle L8Beat)) :
    Lossless words (run (start scfifo) cycles) :=
  (run_accounted hideal cycles).lossless hideal

/-- A packet of two beats, in the second and third cycle. -/
def twoBeats : List (Cycle L8Beat) :=
  [⟨⟨0x0102030405060708#64, true, false, 0#3⟩, false, true⟩,
    ⟨⟨0x0102030405060708#64, true, false, 0#3⟩, true, true⟩,
    ⟨⟨0x090a000000000000#64, false, true, 6#3⟩, true, true⟩] ++
  List.replicate 3 ⟨⟨0#64, false, false, 0#3⟩, false, true⟩

/-- A cycle without input in which the output is not ready. -/
def refusal : Cycle L8Beat :=
  ⟨⟨0#64, false, false, 0#3⟩, false, false⟩

omit hideal in
theorem pktBuf_lossless_twoBeats : Lossless id (run (start Scfifo.list) twoBeats) :=
  pktBuf_lossless Scfifo.list_ideal twoBeats

/-- The output stays valid until a packet end is transferred. -/
theorem Accounted.outValid_run {config : PktBufConfig scfifo} (hconfig : Accounted words config)
    (hvalid : config.state.output.outValid = true) (cycles : List (Cycle L8Beat)) :
    ∃ moved, (run config cycles).transferred = config.transferred ++ moved ∧
      ((∀ beat ∈ moved, beat.endofpacket = false) →
        (run config cycles).state.output.outValid = true) := by
  induction cycles using List.reverseRecOn with
  | nil => exact ⟨[], (List.append_nil _).symm, fun _ => hvalid⟩
  | append_singleton cycles cycle ih =>
      obtain ⟨moved, hmoved, hstays⟩ := ih
      have hrun : run config (cycles ++ [cycle]) = step (run config cycles) cycle :=
        run_append config cycles [cycle]
      have hreached : Accounted words (run config cycles) :=
        foldl_invariant (fun config cycle => step_accounted hideal config cycle) cycles _ hconfig
      refine ⟨moved ++ (run config cycles).state.output.transfers cycle.outReady, ?_, ?_⟩
      · rw [hrun, ← List.append_assoc, ← hmoved]
        rfl
      · intro hmid
        rw [hrun]
        refine hreached.outValid_step cycle
          (hstays fun beat hbeat => hmid beat (List.mem_append_left _ hbeat)) ?_
        intro beat hbeat
        exact hmid beat (List.mem_append_right _ hbeat)

/-- In every run from reset a beat is offered only after the end of its packet was
accepted, and from then on the output is valid in every cycle until the end of the
packet is transferred. -/
theorem pktBuf_storeForward (before during : List (Cycle L8Beat))
    (hvalid : (run (start scfifo) before).state.output.outValid = true) :
    (∃ rest, (run (start scfifo) before).accepted =
        (run (start scfifo) before).transferred ++
          (run (start scfifo) before).state.output.stage0 :: rest ∧
      ∃ beat ∈ (run (start scfifo) before).state.output.stage0 :: rest, beat.endofpacket = true) ∧
    ∃ moved, (run (start scfifo) (before ++ during)).transferred =
        (run (start scfifo) before).transferred ++ moved ∧
      ((∀ beat ∈ moved, beat.endofpacket = false) →
        (run (start scfifo) (before ++ during)).state.output.outValid = true) := by
  have hconfig := run_accounted hideal before
  refine ⟨hconfig.packet_accepted hvalid, ?_⟩
  rw [run_append]
  exact hconfig.outValid_run hideal hvalid during

omit hideal in
/-- The first beat of the two is offered and then refused for a cycle. -/
theorem pktBuf_storeForward_twoBeats :
    (run (start Scfifo.list) twoBeats).state.output.outValid = true ∧
      (run (start Scfifo.list) (twoBeats ++ [refusal])).state.output.outValid = true := by
  have hvalid : (run (start Scfifo.list) twoBeats).state.output.outValid = true := by decide
  obtain ⟨-, moved, hmoved, hstays⟩ :=
    pktBuf_storeForward Scfifo.list_ideal twoBeats [refusal] hvalid
  have hnone : (run (start Scfifo.list) (twoBeats ++ [refusal])).transferred = [] := by decide
  refine ⟨hvalid, hstays ?_⟩
  intro beat hbeat
  rw [hnone] at hmoved
  rw [(List.append_eq_nil_iff.mp hmoved.symm).2] at hbeat
  exact absurd hbeat List.not_mem_nil

end PktBuf

end IcmpServer.Rtl
