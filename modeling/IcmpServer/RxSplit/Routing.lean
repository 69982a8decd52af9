import IcmpServer.Elastic.Packets
import IcmpServer.Elastic.Rounds
import IcmpServer.RxSplit.Components
import Mathlib.Algebra.BigOperators.Group.Finset.Piecewise
import Mathlib.Algebra.Order.BigOperators.Group.Finset

/-! # Routing whole packets

A splitter that decides from its stages what the packet in front of it is sends
every packet as a whole to the port of that packet. What each port receives is
accounted for as one fixed list: written, in the port's register, and still to
be routed.
-/

namespace IcmpServer.RxSplit

open Elastic

variable {Port : Type} [DecidableEq Port] {depth : Nat}

/-- An update of `output_state` that knows the route of the packet in front. -/
structure Router (Port : Type) (depth : Nat) where
  update : Pipeline Beat depth → Option Port
  route : List Beat → Port
  /-- A decision is the route of the first packet, whatever follows the stages. -/
  sound : ∀ stages port later, update stages = some port →
    ∃ packet rest, packets Beat.last (stages.contents ++ later) = packet :: rest ∧
      route packet = port
  /-- Full stages, or stages that start with a whole packet, are enough to decide. -/
  decides : ∀ stages items free, stages.Packed items free →
    (free = 0 ∨ HasPacket Beat.last items) → update stages ≠ none

/-- One call of a splitter on its streams. -/
abbrev Component (Port : Type) (depth : Nat) :=
  SplitState Port depth → StreamIn Beat → (Port → StreamOut Beat) →
    SplitState Port depth × StreamIn Beat × (Port → StreamOut Beat)

/-- One entry of a schedule: whether the read is served and which writes are taken. -/
structure Call (Port : Type) where
  deliver : Bool
  accept : Port → Bool

/-- A splitter with its input not yet read and what it has written to each port. -/
structure Config (Port : Type) (depth : Nat) where
  state : SplitState Port depth
  input : List Beat
  output : Port → List Beat

/-- Before the first call. -/
def start (Port : Type) (depth : Nat) (input : List Beat) : Config Port depth :=
  ⟨SplitState.init Port depth, input, fun _ => []⟩

def step (component : Component Port depth) (config : Config Port depth) (call : Call Port) :
    Config Port depth :=
  let result := component config.state ⟨config.input, call.deliver⟩
    fun port => ⟨config.output port, call.accept port⟩
  ⟨result.1, result.2.1.queue, fun port => (result.2.2 port).written⟩

/-- Any finite schedule. -/
def run (component : Component Port depth) (config : Config Port depth)
    (schedule : List (Call Port)) : Config Port depth :=
  schedule.foldl (step component) config

/-- The beats read and not yet routed, followed by the input. -/
def Config.stream (config : Config Port depth) : List Beat :=
  config.state.stages.contents ++ config.input

/-- What was written to a port, followed by the beat in its register. -/
def Config.sent (config : Config Port depth) (port : Port) : List Beat :=
  config.output port ++ (config.state.out port).toList

/-! ## One call -/

/-- What the routing stage can do. -/
inductive Routing (outputState : Option Port) (out : Port → Option Beat)
    (stages : Pipeline Beat depth) : (Port → Option Beat) × Pipeline Beat depth × Bool → Prop
  | hold : outputState = none → Routing outputState out stages (out, stages, true)
  | move (port beat) : outputState = some port → out port = none → stages.front = some beat →
      Routing outputState out stages
        (Function.update out port (some beat), stages.pop, beat.last)
  | wait (port) : outputState = some port → (out port = none → stages.front = none) →
      Routing outputState out stages (out, stages, false)

theorem routing_cases (outputState : Option Port) (out : Port → Option Beat)
    (stages : Pipeline Beat depth) :
    Routing outputState out stages (routing outputState out stages) := by
  cases outputState with
  | none => exact .hold rfl
  | some port =>
      cases hout : out port with
      | some held => simpa [routing, hout] using Routing.wait port rfl (by simp [hout])
      | none =>
          cases hfront : stages.front with
          | none => simpa [routing, hout, hfront] using Routing.wait port rfl fun _ => hfront
          | some beat => simpa [routing, hout, hfront] using Routing.move port beat rfl hout hfront

/-- The output stage of a call, port by port. -/
def Config.flushed (config : Config Port depth) (call : Call Port) (port : Port) :
    Option Beat × StreamOut Beat :=
  (⟨config.output port, call.accept port⟩ : StreamOut Beat).flush (config.state.out port)

/-- The routing stage of a call. -/
def Config.routed (config : Config Port depth) (call : Call Port) :
    (Port → Option Beat) × Pipeline Beat depth × Bool :=
  routing config.state.outputState (fun port => (config.flushed call port).1) config.state.stages

/-- What the routing stage of a call can do. -/
theorem Config.routed_cases (config : Config Port depth) (call : Call Port) :
    Routing config.state.outputState (fun port => (config.flushed call port).1)
      config.state.stages (config.routed call) :=
  routing_cases _ _ _

theorem step_eq (updateState : Pipeline Beat depth → Option Port) (config : Config Port depth)
    (call : Call Port) :
    step (splitCall updateState) config call =
      let routed := config.routed call
      let shifted := routed.2.1.shift ⟨config.input, call.deliver⟩
      ⟨⟨routed.1, shifted.1,
          if routed.2.2 then updateState shifted.1 else config.state.outputState⟩,
        shifted.2.queue, fun port => (config.flushed call port).2.written⟩ := rfl

namespace Router

variable (router : Router Port depth)

/-- The beats of the packets routed to a port, in order. -/
def routed (port : Port) (stream : List (List Beat)) : List Beat :=
  (stream.filter fun packet => router.route packet = port).flatten

theorem routed_cons (port : Port) (packet : List Beat) (rest : List (List Beat)) :
    router.routed port (packet :: rest) =
      (if router.route packet = port then packet else []) ++ router.routed port rest := by
  by_cases hroute : router.route packet = port <;> simp [routed, hroute]

/-- What a port still receives of the unrouted beats: with a decision standing,
the first packet goes where the decision says. -/
def future (outputState : Option Port) (stream : List Beat) (port : Port) : List Beat :=
  match outputState, packets Beat.last stream with
  | none, whole => router.routed port whole
  | some _, [] => []
  | some current, packet :: rest =>
      (if current = port then packet else []) ++ router.routed port rest

/-- A fresh decision agrees with the routes. -/
theorem future_update (stages : Pipeline Beat depth) (later : List Beat) (port : Port) :
    router.future (router.update stages) (stages.contents ++ later) port =
      router.future none (stages.contents ++ later) port := by
  cases hupdate : router.update stages with
  | none => rfl
  | some current =>
      obtain ⟨packet, rest, hpackets, rfl⟩ := router.sound stages current later hupdate
      simp [future, hpackets, routed_cons]

/-- Moving the first beat of a decided packet to its port. -/
theorem future_move (current port : Port) (beat : Beat) (rest : List Beat) :
    (if current = port then [beat] else []) ++
        router.future (if beat.last then none else some current) rest port =
      router.future (some current) (beat :: rest) port := by
  cases hlast : beat.last with
  | true => simp [future, packets_cons_last hlast]
  | false =>
      cases hrest : packets Beat.last rest with
      | nil => simp [future, packets_cons_more hlast, hrest, routed]
      | cons packet others =>
          by_cases hport : current = port <;>
            simp [future, packets_cons_more hlast, hrest, hport]

end Router

/-! ## The effect of a call -/

/-- A call leaves the unrouted stream and what was sent alone, or moves the first
beat of the stream to the port that stands decided. -/
inductive Effect (updateState : Pipeline Beat depth → Option Port)
    (config next : Config Port depth) : Prop
  | stay : next.stream = config.stream → (∀ port, next.sent port = config.sent port) →
      (next.state.outputState = config.state.outputState ∨
        config.state.outputState = none ∧
          next.state.outputState = updateState next.state.stages) →
      Effect updateState config next
  | move (current : Port) (beat : Beat) : config.state.outputState = some current →
      config.stream = beat :: next.stream →
      (∀ port, next.sent port = config.sent port ++ if current = port then [beat] else []) →
      (next.state.outputState =
        if beat.last then updateState next.state.stages else some current) →
      Effect updateState config next

theorem step_effect (updateState : Pipeline Beat depth → Option Port)
    (config : Config Port depth) (call : Call Port) :
    Effect updateState config (step (splitCall updateState) config call) := by
  have hsent : ∀ port, (config.flushed call port).2.written ++
      (config.flushed call port).1.toList = config.sent port :=
    fun port => StreamOut.flush_append _ _
  have hcases := config.routed_cases call
  rw [step_eq]
  generalize config.routed call = routed at hcases ⊢
  cases hcases with
  | hold hnone =>
      refine .stay ?_ hsent (Or.inr ⟨hnone, rfl⟩)
      exact Pipeline.shift_append _ _
  | wait port hport =>
      refine .stay ?_ hsent (Or.inl rfl)
      exact Pipeline.shift_append _ _
  | move port beat hport hfree hfront =>
      refine .move port beat hport ?_ ?_ (by simp [hport])
      · have hshift := config.state.stages.pop.shift_append ⟨config.input, call.deliver⟩
        simp only [Config.stream]
        rw [hshift, Pipeline.contents_pop, hfront]
        rfl
      · intro other
        rw [← hsent other]
        by_cases hother : port = other
        · subst hother
          simp [Config.sent, hfree]
        · simp [Config.sent, hother, Function.update_of_ne (Ne.symm hother)]

theorem step_input_suffix (updateState : Pipeline Beat depth → Option Port)
    (config : Config Port depth) (call : Call Port) :
    (step (splitCall updateState) config call).input <:+ config.input := by
  rw [step_eq]
  exact Pipeline.shift_suffix _ ⟨config.input, call.deliver⟩

/-! ## The account -/

/-- What holds of every configuration reached on an input. -/
structure Accounted [Fintype Port] (router : Router Port depth) (input : List Beat)
    (config : Config Port depth) : Prop where
  ports : ∀ port, config.sent port ++
    router.future config.state.outputState config.stream port =
      router.routed port (packets Beat.last input)
  beats : ∑ port, (config.sent port : Multiset Beat) + config.stream = input
  read : config.input <:+ input
  framed : Framed Beat.last input → Framed Beat.last config.stream

variable [Fintype Port] {router : Router Port depth} {input : List Beat}

theorem start_accounted (router : Router Port depth) (input : List Beat) :
    Accounted router input (start Port depth input) where
  ports port := by simp [start, SplitState.init, Config.sent, Config.stream, Router.future]
  beats := by simp [start, SplitState.init, Config.sent, Config.stream]
  read := List.suffix_rfl
  framed hframed := by simpa [start, SplitState.init, Config.stream] using hframed

/-- Sending the first beat to one port moves it between the two sums. -/
theorem sum_sent_move {config next : Config Port depth} {current : Port} {beat : Beat}
    (hsent : ∀ port, next.sent port =
      config.sent port ++ if current = port then [beat] else []) :
    ∑ port, (next.sent port : Multiset Beat) =
      ∑ port, (config.sent port : Multiset Beat) + {beat} := by
  have hport : ∀ port, (next.sent port : Multiset Beat) =
      config.sent port + if current = port then {beat} else 0 := by
    intro port
    rw [hsent port, ← Multiset.coe_add]
    split_ifs <;> rfl
  simp [hport, Finset.sum_add_distrib]

theorem step_accounted (config : Config Port depth) (call : Call Port)
    (hconfig : Accounted router input config) :
    Accounted router input (step (splitCall router.update) config call) := by
  have hread := (step_input_suffix router.update config call).trans hconfig.read
  have hupdate := fun port => router.future_update
    (step (splitCall router.update) config call).state.stages
    (step (splitCall router.update) config call).input port
  cases step_effect router.update config call with
  | stay hstream hsent hstate =>
      refine ⟨?_, ?_, hread, fun h => hstream ▸ hconfig.framed h⟩
      · intro port
        rw [← hconfig.ports port, hsent port]
        rcases hstate with hsame | ⟨hnone, hnext⟩
        · rw [hsame, hstream]
        · rw [hnext, hnone, ← hstream]
          exact congrArg (config.sent port ++ ·) (hupdate port)
      · rw [← hconfig.beats, hstream]
        simp only [hsent]
  | move current beat hcurrent hstream hsent hstate =>
      refine ⟨?_, ?_, hread, ?_⟩
      · intro port
        rw [← hconfig.ports port, hsent port, hcurrent, hstream, ← router.future_move,
          List.append_assoc, hstate]
        cases hlast : beat.last with
        | true =>
            exact congrArg
              (fun later => config.sent port ++ ((if current = port then [beat] else []) ++ later))
              (hupdate port)
        | false => rfl
      · rw [← hconfig.beats, sum_sent_move hsent, hstream, ← Multiset.cons_coe, add_assoc]
        rfl
      · intro h
        exact (hstream ▸ hconfig.framed h).tail

theorem run_accounted (schedule : List (Call Port)) (config : Config Port depth)
    (hconfig : Accounted router input config) :
    Accounted router input (run (splitCall router.update) config schedule) :=
  foldl_invariant (fun config call => step_accounted config call) schedule config hconfig

end IcmpServer.RxSplit
