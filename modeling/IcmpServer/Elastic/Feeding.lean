import IcmpServer.Elastic.Pipeline

/-! # Components in front of a growing input

An account of a component is made for an input that waits as a whole from the start,
while in a system the input arrives in pieces. The two are the same to a component
that only tries to read: a call that finds nothing is a call whose read is not
served, so every run on a growing input is a run on the whole input under another
schedule.
-/

namespace Elastic

variable {ι κ χ : Type}

/-- A component whose input may still grow. -/
structure Machine (ι κ χ : Type) [Append ι] where
  /-- Before the first call, with an input waiting. -/
  start : ι → χ
  /-- More input behind the one that waits. -/
  feed : χ → ι → χ
  step : χ → κ → χ
  feed_start : ∀ first later, feed (start first) later = start (first ++ later)
  feed_feed : ∀ config first later, feed (feed config first) later = feed config (first ++ later)
  /-- On a longer input some call does the same. -/
  step_feed : ∀ config call later,
    ∃ other, step (feed config later) other = feed (step config call) later

namespace Machine

variable [Append ι] (machine : Machine ι κ χ)

def run (config : χ) (schedule : List κ) : χ :=
  schedule.foldl machine.step config

theorem run_append (config : χ) (first second : List κ) :
    machine.run config (first ++ second) = machine.run (machine.run config first) second :=
  List.foldl_append

/-- Reached with this input fed so far: whatever else waits behind it, some schedule
leads to the same configuration. -/
def Reached (input : ι) (config : χ) : Prop :=
  ∀ later, ∃ schedule,
    machine.run (machine.start (input ++ later)) schedule = machine.feed config later

variable {machine} {input : ι} {config : χ}

theorem reached_start (input : ι) : machine.Reached input (machine.start input) :=
  fun later => ⟨[], (machine.feed_start input later).symm⟩

/-- A call on the input fed so far is a call on the whole input. -/
theorem Reached.step (hreached : machine.Reached input config) (call : κ) :
    machine.Reached input (machine.step config call) := by
  intro later
  obtain ⟨schedule, hschedule⟩ := hreached later
  obtain ⟨other, hother⟩ := machine.step_feed config call later
  refine ⟨schedule ++ [other], ?_⟩
  rw [run_append, hschedule]
  exact hother

theorem Reached.feed (hreached : machine.Reached input config) (more : ι) :
    machine.Reached (input ++ more) (machine.feed config more) := by
  intro later
  obtain ⟨schedule, hschedule⟩ := hreached (more ++ later)
  refine ⟨schedule, ?_⟩
  rw [machine.feed_feed, ← hschedule, ← machine.feed_start, ← machine.feed_start,
    ← machine.feed_start, machine.feed_feed]

/-- What holds of every run on an input that waits from the start holds here, with
anything else still to come. -/
theorem Reached.holds (hreached : machine.Reached input config) (goal : ι → χ → Prop)
    (hgoal : ∀ whole schedule, goal whole (machine.run (machine.start whole) schedule))
    (later : ι) : goal (input ++ later) (machine.feed config later) := by
  obtain ⟨schedule, hschedule⟩ := hreached later
  rw [← hschedule]
  exact hgoal (input ++ later) schedule

end Machine

/-! ## Reading from a growing stream -/

variable {α : Type}

/-- The same stream with more behind its queue, in a call that reads no further. -/
def StreamIn.extend (stream : StreamIn α) (later : List α) : StreamIn α :=
  ⟨stream.queue ++ later, stream.deliver && !stream.queue.isEmpty⟩

theorem StreamIn.tryRead_extend (stream : StreamIn α) (later : List α) :
    (stream.extend later).tryRead.1 = stream.tryRead.1 ∧
      (stream.extend later).tryRead.2.queue = stream.tryRead.2.queue ++ later := by
  obtain ⟨queue, deliver⟩ := stream
  cases deliver <;> cases queue <;> exact ⟨rfl, rfl⟩

theorem StreamIn.fill_extend (stream : StreamIn α) (later : List α) (register : Option α) :
    ((stream.extend later).fill register).1 = (stream.fill register).1 ∧
      ((stream.extend later).fill register).2.queue =
        (stream.fill register).2.queue ++ later := by
  cases register with
  | some item => exact ⟨rfl, rfl⟩
  | none => exact stream.tryRead_extend later

/-- Registers move in the same way whatever waits behind the stream. -/
theorem shiftIn_extend (front : Option α) (behind : List (Option α)) (stream : StreamIn α)
    (later : List α) :
    (shiftIn front behind (stream.extend later)).1 = (shiftIn front behind stream).1 ∧
      (shiftIn front behind (stream.extend later)).2.1 = (shiftIn front behind stream).2.1 ∧
      (shiftIn front behind (stream.extend later)).2.2.queue =
        (shiftIn front behind stream).2.2.queue ++ later := by
  induction behind generalizing front with
  | nil =>
      obtain ⟨hfront, hqueue⟩ := stream.fill_extend later front
      exact ⟨hfront, rfl, hqueue⟩
  | cons next rest ih =>
      obtain ⟨hnext, hrest, hqueue⟩ := ih (advance front next).2
      exact ⟨rfl, congrArg₂ List.cons hnext hrest, hqueue⟩

theorem Pipeline.shift_extend {depth : Nat} (pipeline : Pipeline α depth) (stream : StreamIn α)
    (later : List α) :
    (pipeline.shift (stream.extend later)).1 = (pipeline.shift stream).1 ∧
      (pipeline.shift (stream.extend later)).2.queue =
        (pipeline.shift stream).2.queue ++ later := by
  obtain ⟨hfront, hbehind, hqueue⟩ :=
    shiftIn_extend pipeline.front pipeline.behind stream later
  refine ⟨?_, hqueue⟩
  simp only [Pipeline.shift, hfront, hbehind]

end Elastic
