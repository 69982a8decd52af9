import IcmpServer.RxSplit.Routing

/-! # Every packet arrives

A call of a splitter either changes nothing or moves a beat or settles the route
of a packet. While beats of whole packets are left, a call that is served and
not refused changes something, so all of them arrive.
-/

namespace IcmpServer.RxSplit

open Elastic

variable {Port : Type} [Fintype Port] {depth : Nat}

/-- Moves still possible: a beat moves once for each register ahead of it, and a
packet may first have to be decided. -/
def Config.remaining (config : Config Port depth) : Nat :=
  2 * (∑ port, occupied (config.state.out port) + config.state.stages.work 2 +
      (depth + 3) * config.input.length) +
    if config.state.outputState = none then 1 else 0

/-- No beat is left in the splitter or in front of it. -/
structure Config.Drained (config : Config Port depth) : Prop where
  out : ∀ port, config.state.out port = none
  stages : config.state.stages.contents = []
  input : config.input = []

theorem flushed_idle_or_lt (config : Config Port depth) (call : Call Port) :
    (∀ port, config.flushed call port =
        (config.state.out port, ⟨config.output port, call.accept port⟩)) ∨
      ∑ port, occupied (config.flushed call port).1 <
        ∑ port, occupied (config.state.out port) := by
  by_cases hidle : ∀ port, config.flushed call port =
      (config.state.out port, ⟨config.output port, call.accept port⟩)
  · exact Or.inl hidle
  · obtain ⟨port, hport⟩ := not_forall.mp hidle
    have hless := (StreamOut.flush_idle_or_lt ⟨config.output port, call.accept port⟩
      (config.state.out port)).resolve_left hport
    exact Or.inr (Finset.sum_lt_sum (fun other _ => StreamOut.flush_le _ _)
      ⟨port, Finset.mem_univ port, hless⟩)

/-- Without a routed beat a call is idle up to the decision, or moves some beat. -/
theorem shift_idle_or_lt (config : Config Port depth) (call : Call Port) :
    ((∀ port, config.flushed call port =
          (config.state.out port, ⟨config.output port, call.accept port⟩)) ∧
        config.state.stages.shift ⟨config.input, call.deliver⟩ =
          (config.state.stages, ⟨config.input, call.deliver⟩)) ∨
      ∑ port, occupied (config.flushed call port).1 +
          (config.state.stages.shift ⟨config.input, call.deliver⟩).1.work 2 +
          (depth + 3) * (config.state.stages.shift
            ⟨config.input, call.deliver⟩).2.queue.length <
        ∑ port, occupied (config.state.out port) + config.state.stages.work 2 +
          (depth + 3) * config.input.length := by
  have hdepth : 2 + depth + 1 = depth + 3 := by omega
  have hshift := config.state.stages.shift_idle_or_lt 2 ⟨config.input, call.deliver⟩
  rw [hdepth] at hshift
  rcases flushed_idle_or_lt config call with hflush | hflush
  · rcases hshift with hidle | hless
    · exact Or.inl ⟨hflush, hidle⟩
    · right
      simp only [hflush]
      simp only at hless
      omega
  · right
    rcases hshift with hidle | hless
    · rw [hidle]
      simp only
      omega
    · simp only at hless
      omega

variable [DecidableEq Port]

/-- A beat routed to a free register occupies one more. -/
theorem sum_occupied_update (out : Port → Option Beat) {port : Port}
    (hfree : out port = none) (beat : Beat) :
    ∑ other, occupied (Function.update out port (some beat) other) =
      ∑ other, occupied (out other) + 1 := by
  have hother : ∀ other, occupied (Function.update out port (some beat) other) =
      occupied (out other) + if port = other then 1 else 0 := by
    intro other
    by_cases heq : port = other
    · subst heq
      simp [hfree]
    · simp [heq, Function.update_of_ne (Ne.symm heq)]
  simp [hother, Finset.sum_add_distrib]

theorem step_idle_or_lt (updateState : Pipeline Beat depth → Option Port)
    (config : Config Port depth) (call : Call Port) :
    step (splitCall updateState) config call = config ∨
      (step (splitCall updateState) config call).remaining < config.remaining := by
  have hcases := config.routed_cases call
  rw [step_eq]
  generalize config.routed call = routed at hcases ⊢
  cases hcases with
  | hold hnone =>
      rcases shift_idle_or_lt config call with ⟨hflush, hshift⟩ | hless
      · simp only [hflush, hshift, if_true]
        cases hupdate : updateState config.state.stages with
        | none => exact Or.inl (by rw [← hnone])
        | some port =>
            right
            simp [Config.remaining, hnone]
      · right
        simp only [Config.remaining, hnone, if_true]
        split_ifs <;> omega
  | wait port hport =>
      rcases shift_idle_or_lt config call with ⟨hflush, hshift⟩ | hless
      · left
        simp [hflush, hshift]
      · right
        simp only [Config.remaining]
        simp only [hport, Bool.false_eq_true, if_false]
        omega
  | move port beat hport hfree hfront =>
      right
      have hout := sum_occupied_update (fun port => (config.flushed call port).1) hfree beat
      have hflush : ∑ port, occupied (config.flushed call port).1 ≤
          ∑ port, occupied (config.state.out port) :=
        Finset.sum_le_sum fun other _ => StreamOut.flush_le _ _
      have hwork := config.state.stages.work_pop 2
      rw [hfront, occupied_some] at hwork
      have hdepth : 2 + depth + 1 = depth + 3 := by omega
      have hshift := config.state.stages.pop.shift_le 2 ⟨config.input, call.deliver⟩
      rw [hdepth] at hshift
      simp only at hout hshift
      simp only [Config.remaining]
      split_ifs <;> omega

/-- No call is more to do. -/
theorem step_remaining_le (updateState : Pipeline Beat depth → Option Port)
    (config : Config Port depth) (call : Call Port) :
    (step (splitCall updateState) config call).remaining ≤ config.remaining := by
  rcases step_idle_or_lt updateState config call with hidle | hless
  · rw [hidle]
  · exact Nat.le_of_lt hless

omit [Fintype Port] in
/-- While whole packets are left, a call that is not refused changes something. A
read must be served only as long as there is input. -/
theorem step_moves {router : Router Port depth} (config : Config Port depth) (call : Call Port)
    (hframed : Framed Beat.last config.stream) (haccept : ∀ port, call.accept port = true)
    (hserved : call.deliver = true ∨ config.input = []) (hopen : ¬ config.Drained) :
    step (splitCall router.update) config call ≠ config := by
  intro hidle
  have hcases := config.routed_cases call
  have hfree : ∀ port, config.state.out port = none := by
    intro port
    have hwritten : (config.flushed call port).2.written = config.output port :=
      congrFun (congrArg Config.output hidle) port
    cases hheld : config.state.out port with
    | none => rfl
    | some beat =>
        simp [Config.flushed, hheld, haccept port, StreamOut.flush_accept] at hwritten
  rw [step_eq] at hidle
  generalize config.routed call = routed at hcases hidle
  have hstages := congrArg (fun next : Config Port depth => next.state.stages) hidle
  have hinput := congrArg Config.input hidle
  dsimp only at hstages hinput
  cases hcases with
  | hold hnone =>
      have hupdate := congrArg (fun next : Config Port depth => next.state.outputState) hidle
      simp only [if_true, hstages, hnone] at hupdate
      obtain ⟨items, free, hpacked, hfull⟩ :=
        config.state.stages.shift_settled ⟨config.input, call.deliver⟩ hstages hinput hserved
      -- full registers or a complete packet would have set the output state
      have hneed := mt (router.decides config.state.stages items free hpacked)
        (not_not.mpr hupdate)
      have hempty : config.input = [] := hfull.resolve_left fun hzero => hneed (Or.inl hzero)
      have hitems : items = [] := by
        by_contra hne
        rw [Config.stream, hempty, List.append_nil, hpacked.contents_eq] at hframed
        exact hneed (Or.inr (hframed.split hne))
      exact hopen ⟨hfree, hpacked.contents_eq.trans hitems, hempty⟩
  | wait port hport hfront =>
      obtain ⟨items, free, hpacked, hfull⟩ :=
        config.state.stages.shift_settled ⟨config.input, call.deliver⟩ hstages hinput hserved
      have hnone : config.state.stages.front = none :=
        hfront (by simp [Config.flushed, hfree port, StreamOut.flush])
      obtain ⟨hitems, hpositive⟩ := hpacked.of_front_none hnone
      exact hopen ⟨hfree, hpacked.contents_eq.trans hitems, hfull.resolve_left hpositive⟩
  | move port beat hport hnone hfront =>
      have hshift := config.state.stages.pop.shift_append ⟨config.input, call.deliver⟩
      have hpop := config.state.stages.contents_pop
      rw [hfront] at hpop
      simp only [hstages, hinput, hpop] at hshift
      simpa using congrArg List.length hshift

omit [Fintype Port] in
/-- A drained splitter stays drained. -/
theorem step_drained (updateState : Pipeline Beat depth → Option Port)
    (config : Config Port depth) (call : Call Port) (hdrained : config.Drained) :
    (step (splitCall updateState) config call).Drained := by
  have hstream : config.stream = [] := by
    rw [Config.stream, hdrained.stages, hdrained.input]
    rfl
  have hfront : config.state.stages.front = none := by
    have hpop := config.state.stages.contents_pop
    rw [hdrained.stages] at hpop
    cases hfront : config.state.stages.front with
    | none => rfl
    | some beat => simp [hfront] at hpop
  have hempty : (step (splitCall updateState) config call).stream = [] := by
    cases step_effect updateState config call with
    | stay hsame _ _ => exact hsame.trans hstream
    | move _ _ _ hmove _ _ => simp [hstream] at hmove
  obtain ⟨hstages, hinput⟩ := List.append_eq_nil_iff.mp hempty
  refine ⟨?_, hstages, hinput⟩
  intro port
  have hflushed : ∀ port, (config.flushed call port).1 = none := fun port => by
    simp [Config.flushed, hdrained.out port, StreamOut.flush]
  have hcases := config.routed_cases call
  rw [step_eq]
  generalize config.routed call = routed at hcases ⊢
  cases hcases with
  | hold | wait => exact hflushed port
  | move _ _ _ _ hsome => simp [hfront] at hsome

omit [Fintype Port] in
/-- A drained splitter writes nothing. -/
theorem step_output_of_drained (updateState : Pipeline Beat depth → Option Port)
    (config : Config Port depth) (call : Call Port) (hdrained : config.Drained) (port : Port) :
    (step (splitCall updateState) config call).output port = config.output port := by
  simp [step_eq, Config.flushed, hdrained.out port, StreamOut.flush]

/-! ## Whole runs -/

/-- A round has a call that is not refused and, unless the input is exhausted, is
served. -/
def IsRound (config : Config Port depth) (schedule : List (Call Port)) : Prop :=
  ∃ call ∈ schedule, (∀ port, call.accept port = true) ∧
    (call.deliver = true ∨ config.input = [])

/-- Each port has received a prefix of what is routed to it. -/
theorem Accounted.output_isPrefix {router : Router Port depth} {input : List Beat}
    {config : Config Port depth} (hconfig : Accounted router input config) (port : Port) :
    config.output port <+: router.routed port (packets Beat.last input) := by
  rw [← hconfig.ports port, Config.sent, List.append_assoc]
  exact List.prefix_append _ _

/-- The beats read are those written and those held, each once. -/
theorem Accounted.read_eq {router : Router Port depth} {input : List Beat}
    {config : Config Port depth} (hconfig : Accounted router input config) :
    ∃ read, read ++ config.input = input ∧
      ∑ port, (config.output port : Multiset Beat) +
        (∑ port, ((config.state.out port).toList : Multiset Beat) +
          config.state.stages.contents) = read := by
  obtain ⟨read, hread⟩ := hconfig.read
  refine ⟨read, hread, ?_⟩
  have hbeats := hconfig.beats
  simp only [Config.sent, ← Multiset.coe_add, Finset.sum_add_distrib, Config.stream] at hbeats
  rw [← hread, ← Multiset.coe_add] at hbeats
  apply add_right_cancel (b := (config.input : Multiset Beat))
  simpa only [add_assoc] using hbeats

/-- A drained splitter has written everything. -/
theorem Accounted.output_eq {router : Router Port depth} {input : List Beat}
    {config : Config Port depth} (hconfig : Accounted router input config)
    (hdrained : config.Drained) (port : Port) :
    config.output port = router.routed port (packets Beat.last input) := by
  rw [← hconfig.ports port, Config.sent, Config.stream, hdrained.out port, hdrained.stages,
    hdrained.input]
  cases config.state.outputState <;> simp [Router.future, packets, Router.routed]

/-- On whole packets, finitely many rounds drain the splitter from any reachable
configuration. -/
theorem run_drains {router : Router Port depth} {input : List Beat} {config : Config Port depth}
    (hconfig : Accounted router input config) (hframed : Framed Beat.last input) :
    ∃ bound, ∀ rounds : List (List (Call Port)), bound ≤ rounds.length →
      (∀ round ∈ rounds, IsRound config round) →
      (run (splitCall router.update) config rounds.flatten).Drained := by
  refine ⟨config.remaining + 1, ?_⟩
  intro rounds hlength hrounds
  refine rounds_reach (step (splitCall router.update))
    (fun reached => Accounted router input reached ∧ (config.input = [] → reached.input = []))
    Config.Drained Config.remaining (IsRound config)
    (fun reached call h => ⟨step_accounted reached call h.1, ?_⟩)
    (fun reached call _ => step_idle_or_lt router.update reached call)
    (fun reached call _ => step_drained router.update reached call)
    ?_
    rounds hrounds config ⟨hconfig, id⟩ hlength
  · intro hempty
    exact List.suffix_nil.mp (h.2 hempty ▸ step_input_suffix router.update reached call)
  · intro reached schedule h hopen hround
    obtain ⟨call, hmem, haccept, hserved⟩ := hround
    exact ⟨call, hmem, step_moves reached call (h.1.framed hframed) haccept
      (hserved.imp_right h.2) hopen⟩

/-- On a stream of packets every port receives its packets as wholes and in order,
no beat twice and none elsewhere, and all of them once nothing is refused. -/
theorem run_routes (router : Router Port depth) (stream : List (List Beat))
    (hstream : ∀ packet ∈ stream, IsPacket Beat.last packet) (schedule : List (Call Port)) :
    let config := run (splitCall router.update) (start Port depth stream.flatten) schedule
    (∀ port, config.output port <+: router.routed port stream) ∧
      (∃ read, read ++ config.input = stream.flatten ∧
        ∑ port, (config.output port : Multiset Beat) +
          (∑ port, ((config.state.out port).toList : Multiset Beat) +
            config.state.stages.contents) = read) ∧
      ∃ bound, ∀ rounds : List (List (Call Port)), bound ≤ rounds.length →
        (∀ round ∈ rounds, IsRound config round) →
        (run (splitCall router.update) config rounds.flatten).Drained ∧
          ∀ port, (run (splitCall router.update) config rounds.flatten).output port =
            router.routed port stream := by
  intro config
  have hconfig : Accounted router stream.flatten config :=
    run_accounted schedule _ (start_accounted router stream.flatten)
  have hpackets := packets_flatten stream hstream
  refine ⟨fun port => hpackets ▸ hconfig.output_isPrefix port, hconfig.read_eq, ?_⟩
  obtain ⟨bound, hbound⟩ := run_drains hconfig (Framed.flatten stream hstream)
  refine ⟨bound, ?_⟩
  intro rounds hlength hrounds
  have hdrained := hbound rounds hlength hrounds
  exact ⟨hdrained, fun port =>
    hpackets ▸ (run_accounted rounds.flatten config hconfig).output_eq hdrained port⟩

end IcmpServer.RxSplit
