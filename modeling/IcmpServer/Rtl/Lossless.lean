import IcmpServer.Elastic.Rounds
import IcmpServer.Rtl.Converter

/-! # The converters lose nothing

`in_ready` is computed from the occupancy two cycles ago and the pop from a
registered flag. Both are safe by what the registers know of each other: while
`in_ready` is high the queue holds at most six words, and while the flag is high
it holds one.
-/

namespace IcmpServer.Rtl

open Elastic

/-! ## What the registers know of each other -/

/-- Holds in every reachable state of a converter. -/
structure ConverterState.Sound (state : ConverterState) : Prop where
  output : state.output.Sound
  exist : state.output.queueDataExist = true → state.fifo.count ≠ 0
  ready : state.inReady = true → state.fifo.usedw1d.toNat ≤ 5 ∧ state.fifo.count ≤ 6
  count : state.fifo.count ≤ 7
  /-- At most one word more than in the cycle before. -/
  lag : state.fifo.count ≤ state.fifo.usedw1d.toNat + 1

namespace ConverterState.Sound

variable {state : ConverterState} (hsound : state.Sound)
include hsound

/-- The queue is never popped when it is empty. -/
theorem pop (outReady : Bool) (hpop : state.output.queuePop outReady = true) :
    state.fifo.count ≠ 0 :=
  hsound.exist (OutputStage.exist_of_pop outReady hpop)

theorem write (inValid : Bool) (hwrite : (inValid && state.inReady) = true) :
    state.fifo.count ≤ 6 :=
  (hsound.ready (Bool.and_eq_true_iff.mp hwrite).2).2

/-- The occupancy after a clock edge. -/
theorem count_clock (wdata : BitVec 80) (inValid outReady : Bool) :
    (state.fifo.clock wdata (inValid && state.inReady) (state.output.queuePop outReady)).count =
      state.fifo.count + (inValid && state.inReady).toNat -
        (state.output.queuePop outReady).toNat :=
  state.fifo.count_clock _ _ _ (Nat.le_succ_of_le hsound.count) (hsound.pop outReady)

/-- A clock edge is a step of the queue. -/
theorem contents_clock (wdata : BitVec 80) (inValid outReady : Bool) :
    (state.fifo.clock wdata (inValid && state.inReady) (state.output.queuePop outReady)).contents =
      queueStep state.fifo.contents (state.output.queuePop outReady)
        (if inValid && state.inReady then [wdata] else []) :=
  state.fifo.contents_clock _ _ _ (Nat.le_succ_of_le hsound.count) (hsound.pop outReady)
    fun _ _ => by have hcount := hsound.count; omega

end ConverterState.Sound

variable {ι ο : Type} (converter : Converter ι ο)

theorem reset_sound : ConverterState.reset.Sound := by
  refine ⟨⟨rfl⟩, ?_, ?_, ?_, ?_⟩ <;>
    simp [ConverterState.reset, OutputStage.reset, Fifo80x8.count_reset]

theorem clock_sound {state : ConverterState} (hsound : state.Sound) (cycle : Cycle ι) :
    (converter.clock state cycle).Sound := by
  have hcount : (converter.clock state cycle).fifo.count =
      state.fifo.count + (cycle.inValid && state.inReady).toNat -
        (state.output.queuePop cycle.outReady).toNat :=
    hsound.count_clock (converter.inBeat cycle.inData).word cycle.inValid cycle.outReady
  have hwrite := hsound.write cycle.inValid
  have hbound := hsound.count
  have hlag := hsound.lag
  have husedw : (converter.clock state cycle).fifo.usedw1d.toNat = state.fifo.count := rfl
  have hwrote : (cycle.inValid && state.inReady).toNat ≤ 1 := Bool.toNat_le _
  refine ⟨state.output.clock_sound _ _ _, ?_, ?_, ?_, ?_⟩
  · intro hexist
    have hstays : state.nextQueueDataExist cycle.outReady = true := hexist
    simp only [ConverterState.nextQueueDataExist, Bool.and_eq_true, Bool.or_eq_true,
      Bool.not_eq_true', ← Bool.not_eq_true] at hstays
    rw [Fifo80x8.empty_eq_true, Fifo80x8.aempty_eq_true] at hstays
    rw [hcount]
    cases hpop : state.output.queuePop cycle.outReady <;> simp [hpop] at hstays ⊢ <;> omega
  · intro hready
    have hdelayed : state.fifo.usedw1d.toNat < 5 := by
      simpa [Converter.clock, BitVec.le_def] using hready
    omega
  · cases hvalid : (cycle.inValid && state.inReady) <;> simp [hvalid] at hwrite hcount ⊢ <;> omega
  · omega

/-! ## The account of a run -/

/-- What holds of every configuration reached from reset. -/
structure Converter.Accounted (config : ConverterConfig ι ο) : Prop where
  sound : config.state.Sound
  /-- The accepted beats are those transferred or offered, and those in the queue. -/
  queued : Queued (fun beat => (converter.inBeat beat).word) converter.convert config.accepted
    config.state.fifo.contents
    (config.transferred ++ config.state.output.offered.map converter.outData)

theorem reset_accounted : converter.Accounted ⟨ConverterState.reset, [], []⟩ :=
  ⟨reset_sound, Queued.nil⟩

theorem step_accounted (config : ConverterConfig ι ο) (cycle : Cycle ι)
    (hconfig : converter.Accounted config) : converter.Accounted (converter.step config cycle) := by
  obtain ⟨hsound, hqueued⟩ := hconfig
  refine ⟨clock_sound converter hsound cycle, ?_⟩
  have hcontents : (converter.step config cycle).state.fifo.contents =
      queueStep config.state.fifo.contents (config.state.output.queuePop cycle.outReady)
        ((Converter.accepts config.state cycle).map fun beat => (converter.inBeat beat).word) := by
    apply (hsound.contents_clock _ cycle.inValid cycle.outReady).trans
    cases hwrite : (cycle.inValid && config.state.inReady) <;> simp [Converter.accepts, hwrite]
  have hsent : (converter.step config cycle).transferred ++
      (converter.step config cycle).state.output.offered.map converter.outData =
      config.transferred ++ config.state.output.offered.map converter.outData ++
        if config.state.output.queuePop cycle.outReady then
          [converter.outData (converter.nextStage0 (queueBeat config.state.fifo.rdata))]
        else [] := by
    have hoffered := congrArg (List.map converter.outData)
      (hsound.output.transfers_append_offered cycle.outReady
        (config.state.nextQueueDataExist cycle.outReady)
        (converter.nextStage0 (queueBeat config.state.fifo.rdata)))
    rw [List.map_append, List.map_append] at hoffered
    simp only [Converter.step, Converter.clock, List.append_assoc, hoffered]
    split_ifs <;> rfl
  rw [hsent, hcontents]
  refine hqueued.step (fun word => converter.outData (converter.nextStage0 (queueBeat word)))
    ?_ _ _ fun hpop => config.state.fifo.contents_eq_cons (hsound.pop _ hpop)
  intro beat
  rw [queueBeat_word]
  rfl

theorem run_accounted (cycles : List (Cycle ι)) : converter.Accounted (converter.run cycles) :=
  foldl_invariant (fun config cycle => step_accounted converter config cycle) cycles _
    (reset_accounted converter)

/-! ## What a run guarantees -/

/-- The guarantees of a converter at one moment of a run. -/
structure Converter.Lossless (config : ConverterConfig ι ο) : Prop where
  /-- The transferred beats are the first accepted ones, converted in order. -/
  transferred : config.transferred <+: config.accepted.map converter.convert
  /-- The accepted beats are those transferred, the one in the output register and
  those in the queue. -/
  queued : Queued (fun beat => (converter.inBeat beat).word) converter.convert config.accepted
    config.state.fifo.contents
    (config.transferred ++ config.state.output.offered.map converter.outData)
  bounded : config.state.fifo.count ≤ 7
  nonempty : ∀ outReady, config.state.output.queuePop outReady = true →
    config.state.fifo.empty = false
  /-- A beat that is not taken stays. -/
  stable : ∀ cycle : Cycle ι, config.state.output.outValid = true → cycle.outReady = false →
    (converter.clock config.state cycle).output.outValid = true ∧
      converter.outData (converter.clock config.state cycle).output.stage0 =
        converter.outData config.state.output.stage0

theorem Converter.Accounted.lossless {converter : Converter ι ο} {config : ConverterConfig ι ο}
    (hconfig : converter.Accounted config) : converter.Lossless config where
  transferred := (List.prefix_append _ _).trans hconfig.queued.sent_isPrefix
  queued := hconfig.queued
  bounded := hconfig.sound.count
  nonempty outReady hpop := by
    have hcount := hconfig.sound.pop outReady hpop
    rwa [ne_eq, ← Fifo80x8.empty_eq_true, Bool.not_eq_true] at hcount
  stable cycle hvalid hready := by
    have hstable := hconfig.sound.output.stable hvalid
      (config.state.nextQueueDataExist cycle.outReady)
      (converter.nextStage0 (queueBeat config.state.fifo.rdata))
    rw [← hready] at hstable
    exact ⟨hstable.1, congrArg converter.outData hstable.2⟩

/-- In every run from reset both converters transfer the accepted beats in order,
each converted, and neither lose, invent nor overwrite one. -/
theorem converters_lossless :
    (∀ cycles, l8ToUlong2.Lossless (l8ToUlong2.run cycles)) ∧
      ∀ cycles, ulong2ToL8.Lossless (ulong2ToL8.run cycles) :=
  ⟨fun cycles => (run_accounted l8ToUlong2 cycles).lossless,
    fun cycles => (run_accounted ulong2ToL8 cycles).lossless⟩

end IcmpServer.Rtl
