import IcmpServer.Elastic.Packets
import IcmpServer.Elastic.Rounds
import IcmpServer.Elastic.Stream

/-! # Elastic processes

A process reads one stream, writes another and is made of parts that are called
one at a time, in any order. An account of a process says, from any state and
for any input still to come, what the process will write from there on. Since no
call changes what was written plus what will be written, the output is at every
moment a prefix of one list fixed by the input, whatever the schedule does, and
it is all of that list after finitely many rounds. Accounts compose along a
lossless stream.
-/

namespace Elastic

variable {ι κ α β γ : Type}

/-- Components over one input and one output stream. A call names the part that
runs and returns the new state with both streams as it left them. -/
structure Process (ι α β : Type) where
  State : Type
  init : State
  call : ι → State → StreamIn α → StreamOut β → State × StreamIn α × StreamOut β

/-- One entry of a schedule: the part called, whether its read is served and
whether its write is taken. -/
structure Call (ι : Type) where
  part : ι
  deliver : Bool
  accept : Bool
deriving DecidableEq, Repr

namespace Process

/-- A process in its surroundings: the input not yet read and the output written. -/
structure Config (process : Process ι α β) where
  state : process.State
  input : List α
  output : List β

variable (process : Process ι α β)

/-- The process before its first call, with its whole input waiting. -/
def start (input : List α) : process.Config :=
  ⟨process.init, input, []⟩

def step (config : process.Config) (call : Call ι) : process.Config :=
  let result := process.call call.part config.state ⟨config.input, call.deliver⟩
    ⟨config.output, call.accept⟩
  ⟨result.1, result.2.1.queue, result.2.2.written⟩

/-- Any finite schedule. -/
def run (config : process.Config) (schedule : List (Call ι)) : process.Config :=
  schedule.foldl process.step config

end Process

/-- A round serves and accepts at least one call of every part. It may contain
any further calls, in any order. -/
def IsRound (schedule : List (Call ι)) : Prop :=
  ∀ part, ⟨part, true, true⟩ ∈ schedule

/-- One served and accepted call of every part. -/
theorem isRound_map {parts : List ι} (hparts : ∀ part, part ∈ parts) :
    IsRound (parts.map fun part => ⟨part, true, true⟩) :=
  fun part => List.mem_map_of_mem (hparts part)

namespace Process

/-- The call changes neither the state nor a stream. -/
def Idle (process : Process ι α β) (part : ι) (state : process.State) (input : StreamIn α)
    (output : StreamOut β) : Prop :=
  (process.call part state input output).1 = state ∧
    (process.call part state input output).2.1.queue = input.queue ∧
    (process.call part state input output).2.2.written = output.written

end Process

/-- What a process holds and what it will write. -/
structure Account (process : Process ι α β) where
  /-- What holds of every reachable state. -/
  inv : process.State → Prop
  /-- What the process writes from a state on when the list is all of its
  remaining input. -/
  future : process.State → List α → List β
  /-- Items held in registers and internal streams. -/
  load : process.State → Nat
  /-- Register moves the held items still need. -/
  work : process.State → Nat
  /-- Register moves an item needs from the input stream to the output stream. -/
  depth : Nat
  inv_init : inv process.init
  inv_call : ∀ part state input output, inv state →
    inv (process.call part state input output).1
  /-- Written and future output together never change. -/
  conserve : ∀ part state input output later, inv state →
    (process.call part state input output).2.2.written ++
        future (process.call part state input output).1
          ((process.call part state input output).2.1.queue ++ later) =
      output.written ++ future state (input.queue ++ later)
  /-- Written output stays. -/
  grows : ∀ part state input output, inv state →
    output.written <+: (process.call part state input output).2.2.written
  /-- No item appears or disappears. -/
  count : ∀ part state input output, inv state →
    load (process.call part state input output).1 +
        (process.call part state input output).2.1.queue.length +
        (process.call part state input output).2.2.written.length =
      load state + input.queue.length + output.written.length
  /-- A call is idle or moves something forward. -/
  progress : ∀ part state input output, inv state →
    process.Idle part state input output ∨
      work (process.call part state input output).1 +
          depth * (process.call part state input output).2.1.queue.length <
        work state + depth * input.queue.length
  /-- While there is something to write, some part moves when it is served and
  accepted, unless all the input it needs is still to come. -/
  live : ∀ state queue written later, inv state → future state (queue ++ later) ≠ [] →
    (queue = [] → later = []) →
    ∃ part, ¬ process.Idle part state ⟨queue, true⟩ ⟨written, true⟩

namespace Account

variable {process : Process ι α β} (account : Account process)

/-- The output a process computes from its input. -/
def computes (input : List α) : List β :=
  account.future process.init input

/-- Input and output of a configuration add up to a fixed total. -/
def Accounted (total : List β) (config : process.Config) : Prop :=
  account.inv config.state ∧
    config.output ++ account.future config.state config.input = total

theorem start_accounted (input : List α) :
    account.Accounted (account.computes input) (process.start input) :=
  ⟨account.inv_init, rfl⟩

theorem step_accounted {total : List β} (config : process.Config) (call : Call ι)
    (hconfig : account.Accounted total config) :
    account.Accounted total (process.step config call) := by
  obtain ⟨hinv, htotal⟩ := hconfig
  refine ⟨account.inv_call _ _ _ _ hinv, ?_⟩
  have hconserve := account.conserve call.part config.state ⟨config.input, call.deliver⟩
    ⟨config.output, call.accept⟩ [] hinv
  simp only [List.append_nil] at hconserve
  exact hconserve.trans htotal

theorem run_accounted {total : List β} (schedule : List (Call ι)) (config : process.Config)
    (hconfig : account.Accounted total config) :
    account.Accounted total (process.run config schedule) :=
  foldl_invariant (fun config call => account.step_accounted config call) schedule config hconfig

/-- At every moment of every schedule the output is a prefix of what the
process computes. -/
theorem output_isPrefix (input : List α) (schedule : List (Call ι)) :
    (process.run (process.start input) schedule).output <+: account.computes input :=
  ⟨_, (account.run_accounted schedule _ (account.start_accounted input)).2⟩

/-- Register moves still possible. -/
def remaining (config : process.Config) : Nat :=
  account.work config.state + account.depth * config.input.length

theorem step_idle_or_lt (config : process.Config) (call : Call ι)
    (hinv : account.inv config.state) :
    process.step config call = config ∨
      account.remaining (process.step config call) < account.remaining config := by
  rcases account.progress call.part config.state ⟨config.input, call.deliver⟩
    ⟨config.output, call.accept⟩ hinv with ⟨hstate, hinput, houtput⟩ | hless
  · left
    simp only [Process.step, hstate, hinput, houtput]
  · exact Or.inr hless

/-- While something remains to be written, every round moves something. -/
theorem round_moves {total : List β} (config : process.Config) (schedule : List (Call ι))
    (hconfig : account.Accounted total config) (hopen : config.output ≠ total)
    (hround : IsRound schedule) :
    ∃ call ∈ schedule, process.step config call ≠ config := by
  obtain ⟨hinv, htotal⟩ := hconfig
  have hfuture : account.future config.state (config.input ++ []) ≠ [] := by
    intro hnil
    rw [List.append_nil] at hnil
    rw [hnil, List.append_nil] at htotal
    exact hopen htotal
  obtain ⟨part, hmoves⟩ := account.live config.state config.input config.output [] hinv
    hfuture (fun _ => rfl)
  refine ⟨⟨part, true, true⟩, hround part, ?_⟩
  intro hidle
  rcases account.progress part config.state ⟨config.input, true⟩ ⟨config.output, true⟩ hinv
    with heq | hless
  · exact hmoves heq
  · have hsame := congrArg account.remaining hidle
    simp only [remaining, Process.step] at hsame
    simp only at hless
    omega

/-- While something remains to be written, some part moves when it is called. -/
theorem exists_moves {parts : List ι}
    (hround : IsRound (parts.map fun part => (⟨part, true, true⟩ : Call ι))) {total : List β}
    (config : process.Config) (hconfig : account.Accounted total config)
    (hopen : config.output ≠ total) :
    ∃ part, process.step config ⟨part, true, true⟩ ≠ config := by
  obtain ⟨call, hmem, hmoves⟩ := account.round_moves config _ hconfig hopen hround
  obtain ⟨part, -, rfl⟩ := List.mem_map.mp hmem
  exact ⟨part, hmoves⟩

/-- A complete output stays complete. -/
theorem step_complete {total : List β} (config : process.Config) (call : Call ι)
    (hconfig : account.Accounted total config) (hdone : config.output = total) :
    (process.step config call).output = total := by
  have hgrows := account.grows call.part config.state ⟨config.input, call.deliver⟩
    ⟨config.output, call.accept⟩ hconfig.1
  have hnext := (account.step_accounted config call hconfig).2
  have hinitial : (process.step config call).output <+: total := ⟨_, hnext⟩
  exact (hinitial.eq_of_length (Nat.le_antisymm hinitial.length_le
    (hdone ▸ hgrows.length_le)))

/-- From any reachable configuration, finitely many rounds write all that the
process computes from its input. -/
theorem output_complete (input : List α) (schedule : List (Call ι)) :
    ∃ bound, ∀ rounds : List (List (Call ι)), bound ≤ rounds.length →
      (∀ round ∈ rounds, IsRound round) →
      (process.run (process.run (process.start input) schedule) rounds.flatten).output =
        account.computes input := by
  have hreached := account.run_accounted schedule _ (account.start_accounted input)
  refine ⟨account.remaining (process.run (process.start input) schedule) + 1, ?_⟩
  intro rounds hlength hrounds
  refine rounds_reach process.step (account.Accounted (account.computes input))
    (fun config => config.output = account.computes input) account.remaining IsRound
    (fun config call => account.step_accounted config call)
    (fun config call hconfig => account.step_idle_or_lt config call hconfig.1)
    (fun config call => account.step_complete config call)
    (fun config schedule hconfig => account.round_moves config schedule hconfig)
    rounds hrounds _ hreached (by omega)

/-- Some schedule gets everything written. -/
theorem exists_complete {round : List (Call ι)} (hround : IsRound round) (input : List α) :
    ∃ schedule, (process.run (process.start input) schedule).output = account.computes input := by
  obtain ⟨bound, hbound⟩ := account.output_complete input []
  refine ⟨(List.replicate bound round).flatten, hbound _ (by simp) ?_⟩
  intro other hother
  rwa [List.eq_of_mem_replicate hother]

/-- What the positions of the written list satisfy under every schedule is what
those of the computed list do. -/
theorem written_iff {round : List (Call ι)} (hround : IsRound round) (input : List α)
    (goal : Nat → β → Prop) :
    (∀ schedule index item,
      (process.run (process.start input) schedule).output[index]? = some item →
        goal index item) ↔
      ∀ index item, (account.computes input)[index]? = some item → goal index item := by
  constructor
  · intro hgoal index item hitem
    obtain ⟨schedule, hcomplete⟩ := account.exists_complete hround input
    rw [← hcomplete] at hitem
    exact hgoal schedule index item hitem
  · intro hgoal schedule index item hitem
    obtain ⟨later, hlater⟩ := account.output_isPrefix input schedule
    refine hgoal index item ?_
    rw [← hlater, List.getElem?_append_left (List.getElem?_eq_some_iff.mp hitem).1]
    exact hitem

/-- What a stretch of the written list satisfies once it is out whole, under every
schedule, is what the stretch of the computed list does. -/
theorem window_iff {round : List (Call ι)} (hround : IsRound round) {input : List α}
    {front window later : List β} (hcomputes : account.computes input = front ++ (window ++ later))
    {start count : Nat} (hstart : front.length = start) (hcount : window.length = count)
    (goal : List β → Prop) :
    (∀ schedule, start + count ≤ (process.run (process.start input) schedule).output.length →
      goal (((process.run (process.start input) schedule).output.drop start).take count)) ↔
      goal window := by
  have hwindow : ∀ schedule,
      start + count ≤ (process.run (process.start input) schedule).output.length →
        ((process.run (process.start input) schedule).output.drop start).take count = window := by
    intro schedule hlength
    rw [window_of_isPrefix (account.output_isPrefix input schedule) hlength, hcomputes,
      List.drop_left' hstart, List.take_left' hcount]
  constructor
  · intro hgoal
    obtain ⟨schedule, hcomplete⟩ := account.exists_complete hround input
    have hlength : start + count ≤ (process.run (process.start input) schedule).output.length := by
      rw [hcomplete, hcomputes, List.length_append, List.length_append]
      omega
    rw [← hwindow schedule hlength]
    exact hgoal schedule hlength
  · intro hgoal schedule hlength
    rwa [hwindow schedule hlength]

/-- What holds of the output in the end, from whatever configuration is reached
before, is what holds of the computed list. -/
theorem finally_iff {round : List (Call ι)} (hround : IsRound round) (input : List α)
    (goal : List β → Prop) :
    (∀ schedule, ∃ bound, ∀ rounds : List (List (Call ι)), bound ≤ rounds.length →
      (∀ round ∈ rounds, IsRound round) →
      goal (process.run (process.run (process.start input) schedule) rounds.flatten).output) ↔
      goal (account.computes input) := by
  constructor
  · intro hgoal
    obtain ⟨bound, hbound⟩ := hgoal []
    obtain ⟨enough, hcomplete⟩ := account.output_complete input []
    have hrounds : ∀ other ∈ List.replicate (bound + enough) round, IsRound other := by
      intro other hother
      rwa [List.eq_of_mem_replicate hother]
    rw [← hcomplete (List.replicate (bound + enough) round) (by simp) hrounds]
    exact hbound _ (by simp) hrounds
  · intro hgoal schedule
    obtain ⟨bound, hcomplete⟩ := account.output_complete input schedule
    refine ⟨bound, ?_⟩
    intro rounds hlength hrounds
    rw [hcomplete rounds hlength hrounds]
    exact hgoal

end Account

/-! ## Linking two processes -/

/-- The states of two linked processes and the lossless stream between them. -/
structure Linked (σ β τ : Type) where
  first : σ
  between : List β
  second : τ

namespace Process

/-- Feed the output of one process to another. Each call is a call of a part of
one of the two; the stream between them holds what the first has written and the
second has not read. -/
def link (first : Process ι α β) (second : Process κ β γ) : Process (ι ⊕ κ) α γ where
  State := Linked first.State β second.State
  init := ⟨first.init, [], second.init⟩
  call
    | .inl part, state, input, output =>
        let result := first.call part state.first input ⟨state.between, output.accept⟩
        ({ state with first := result.1, between := result.2.2.written }, result.2.1, output)
    | .inr part, state, input, output =>
        let result := second.call part state.second ⟨state.between, input.deliver⟩ output
        ({ state with second := result.1, between := result.2.1.queue }, input, result.2.2)

end Process

namespace Account

variable {first : Process ι α β} {second : Process κ β γ}

/-- Accounts compose: what the pair will write is what the second process makes
of the stream between them followed by what the first will write. -/
def link (source : Account first) (sink : Account second) : Account (first.link second) where
  inv state := source.inv state.first ∧ sink.inv state.second
  future state input :=
    sink.future state.second (state.between ++ source.future state.first input)
  load state := source.load state.first + state.between.length + sink.load state.second
  -- whatever the first process still holds has the whole of the second before it
  work state := source.work state.first + sink.work state.second +
    sink.depth * (source.load state.first + state.between.length)
  depth := source.depth + sink.depth
  inv_init := ⟨source.inv_init, sink.inv_init⟩
  inv_call
    | .inl part, _, _, _, hinv => ⟨source.inv_call part _ _ _ hinv.1, hinv.2⟩
    | .inr part, _, _, _, hinv => ⟨hinv.1, sink.inv_call part _ _ _ hinv.2⟩
  conserve
    | .inl part, state, input, output, later, hinv => by
        have hsource := source.conserve part state.first input
          ⟨state.between, output.accept⟩ later hinv.1
        simp only [Process.link]
        rw [hsource]
    | .inr part, state, input, output, later, hinv =>
        sink.conserve part state.second ⟨state.between, input.deliver⟩ output _ hinv.2
  grows
    | .inl _, _, _, _, _ => List.prefix_rfl
    | .inr part, _, _, _, hinv => sink.grows part _ _ _ hinv.2
  count
    | .inl part, state, input, output, hinv => by
        have hsource := source.count part state.first input ⟨state.between, output.accept⟩ hinv.1
        simp only [Process.link]
        simp only at hsource
        omega
    | .inr part, state, input, output, hinv => by
        have hsink := sink.count part state.second ⟨state.between, input.deliver⟩ output hinv.2
        simp only [Process.link]
        simp only at hsink
        omega
  progress
    | .inl part, state, input, output, hinv => by
        rcases source.progress part state.first input ⟨state.between, output.accept⟩ hinv.1
          with hidle | hless
        · exact Or.inl ⟨by simp only [Process.link, hidle.1, hidle.2.2]; rfl, hidle.2.1, rfl⟩
        · right
          have hcount := source.count part state.first input ⟨state.between, output.accept⟩ hinv.1
          have hscaled := congrArg (sink.depth * ·) hcount
          simp only [Nat.mul_add] at hscaled
          simp only [Process.link, Nat.mul_add, Nat.add_mul]
          omega
    | .inr part, state, input, output, hinv => by
        rcases sink.progress part state.second ⟨state.between, input.deliver⟩ output hinv.2
          with hidle | hless
        · exact Or.inl ⟨by simp only [Process.link, hidle.1, hidle.2.1]; rfl, rfl, hidle.2.2⟩
        · right
          simp only at hless
          simp only [Process.link, Nat.mul_add]
          omega
  live state queue written later hinv hfuture hlater := by
    -- either the second process can go on alone, or the first still owes it an item
    by_cases hready : state.between = [] → source.future state.first (queue ++ later) = []
    · obtain ⟨part, hmoves⟩ := sink.live state.second state.between written _ hinv.2 hfuture hready
      refine ⟨.inr part, fun ⟨hstate, _, houtput⟩ => hmoves ?_⟩
      exact ⟨congrArg Linked.second hstate, congrArg Linked.between hstate, houtput⟩
    · rw [Classical.not_imp] at hready
      obtain ⟨part, hmoves⟩ := source.live state.first queue state.between later hinv.1
        hready.2 hlater
      refine ⟨.inl part, fun ⟨hstate, hinput, _⟩ => hmoves ?_⟩
      exact ⟨congrArg Linked.first hstate, hinput, congrArg Linked.between hstate⟩

end Account

end Elastic
