import IcmpServer.TxMerge.Lanes

/-! # The ARP lane goes first

Between packets `tx_merge` looks at the ARP lane first. An ARP beat waits for the rest
of one IPv4 packet at most, and an IPv4 packet for all ARP packets that are there.
-/

namespace IcmpServer.TxMerge

open Elastic

/-! ## An ARP beat in its register -/

/-- What a call does while an ARP beat is held. -/
inductive Holding (beat : Beat) (config : Config) (call : Call) (next : Config) : Prop
  | taken : config.state.portSelect ≠ .ipv4 → config.arp = beat :: next.arp →
      next.ipv4 = config.ipv4 → next.sent = config.sent ++ [beat] →
      next.state.portSelect ≠ .ipv4 → Holding beat config call next
  | overtaken (other : Beat) : config.state.portSelect = .ipv4 → next.state.stage0Arp = some beat →
      next.sent = config.sent ++ [other] →
      (next.state.portSelect = if other.last then .idle else .ipv4) →
      Holding beat config call next
  | stay : (config.state.portSelect ≠ .ipv4 → call.accept = false) →
      next.state.stage0Arp = some beat → next.arp = config.arp → next.ipv4 = config.ipv4 →
      next.sent = config.sent → next.state.portSelect = config.state.portSelect →
      Holding beat config call next

theorem mergeStage_of_occupied {state : MergeState} {beat : Beat}
    (hheld : state.stage1 = some beat) : mergeStage state = state := by
  simp [mergeStage, hheld]

/-- The ARP lane goes first. -/
theorem mergeStage_of_arp {state : MergeState} {beat : Beat} (hfree : state.stage1 = none)
    (hheld : state.stage0Arp = some beat) (hport : state.portSelect ≠ .ipv4) :
    mergeStage state = { state with
      stage1 := some beat
      stage0Arp := none
      portSelect := if beat.last then .idle else .arp } := by
  simp [mergeStage, hfree, hheld, hport, Option.filter]

/-- Within an IPv4 packet only its lane is looked at. -/
theorem mergeStage_of_ipv4 {state : MergeState} (hfree : state.stage1 = none)
    (hport : state.portSelect = .ipv4) :
    mergeStage state = match state.stage0Ipv4 with
      | none => state
      | some beat => { state with
          stage1 := some beat
          stage0Ipv4 := none
          portSelect := if beat.last then .idle else .ipv4 } := by
  cases harp : state.stage0Arp <;> cases hipv4 : state.stage0Ipv4 <;>
    simp [mergeStage, hfree, hport, harp, hipv4, Option.filter]

theorem step_holding {config : Config} {beat : Beat} (hheld : config.state.stage0Arp = some beat)
    (call : Call) : Holding beat config call (step config call) := by
  have hsent := (⟨config.output, call.accept⟩ : StreamOut Beat).flush_append config.state.stage1
  have hfillArp := (⟨config.inputArp, call.deliverArp⟩ : StreamIn Beat).fill_append
  have hfillIpv4 := (⟨config.inputIpv4, call.deliverIpv4⟩ : StreamIn Beat).fill_append
  have hkept : (config.flushed call).stage0Arp = some beat := hheld
  rw [step_eq]
  cases hstage1 : (config.flushed call).stage1 with
  | some first =>
      rw [mergeStage_of_occupied hstage1]
      refine .stay (fun _ => ?_) ?_ (hfillArp _) (hfillIpv4 _) hsent rfl
      · by_contra haccept
        have hfree := StreamOut.flush_free (⟨config.output, call.accept⟩ : StreamOut Beat)
          config.state.stage1 (by simpa using haccept)
        exact absurd (hstage1.symm.trans hfree) (by simp)
      · simp only [hkept]
        rfl
  | none =>
      have hempty : ((⟨config.output, call.accept⟩ : StreamOut Beat).flush
          config.state.stage1).1 = none := hstage1
      rw [hempty, Option.toList_none, List.append_nil] at hsent
      by_cases hport : config.state.portSelect = .ipv4
      · rw [mergeStage_of_ipv4 hstage1 hport]
        cases hipv4 : (config.flushed call).stage0Ipv4 with
        | none =>
            refine .stay (fun hother => absurd hport hother) ?_ (hfillArp _) (hfillIpv4 _) ?_ rfl
            · simp only [hkept]
              rfl
            · simp [Config.sent, hstage1, hsent]
        | some other =>
            refine .overtaken other hport ?_ ?_ rfl
            · simp only [hkept]
              rfl
            · simp [Config.sent, hsent]
      · rw [mergeStage_of_arp hstage1 hkept hport]
        refine .taken hport ?_ (hfillIpv4 _) ?_ ?_
        · simp only [Config.arp, hheld]
          exact congrArg (beat :: ·) (hfillArp none).symm
        · simp [Config.sent, hsent]
        · cases beat.last <;> simp

/-! ## Waiting for the rest of a packet -/

/-- A call, or more beats at the end of a lane. -/
inductive Event
  | call (call : Call)
  | feed (lane : Lane) (more : List Beat)

def happen (config : Config) : Event → Config
  | .call call => step config call
  | .feed lane more => feed config lane more

/-- `port_select` behind beats of the open IPv4 packet. -/
def behind (portSelect : PortSelect) (overtaking : List Beat) : PortSelect :=
  match overtaking.getLast? with
  | none => portSelect
  | some beat => if beat.last then .idle else .ipv4

/-- The beats are the rest of the open IPv4 packet or the beginning of it. -/
structure OpenRest (portSelect : PortSelect) (overtaking : List Beat) : Prop where
  opened : overtaking ≠ [] → portSelect = .ipv4
  more : ∀ other ∈ overtaking.dropLast, other.last = false

/-- The beat has been held since, and only these have been sent. -/
structure Waiting (beat : Beat) (before : Config) (overtaking : List Beat) (config : Config) :
    Prop where
  held : config.state.stage0Arp = some beat
  sent : config.sent = before.sent ++ overtaking
  port : config.state.portSelect = behind before.state.portSelect overtaking
  rest : OpenRest before.state.portSelect overtaking

variable {beat : Beat} {before config : Config} {overtaking : List Beat}

theorem waiting_refl (hheld : before.state.stage0Arp = some beat) :
    Waiting beat before [] before where
  held := hheld
  sent := (List.append_nil _).symm
  port := rfl
  rest := ⟨fun hne => absurd rfl hne, by simp⟩

/-- An open packet goes on behind beats that do not end it. -/
theorem OpenRest.push {portSelect : PortSelect} (hrest : OpenRest portSelect overtaking)
    (hopen : behind portSelect overtaking = .ipv4) (other : Beat) :
    OpenRest portSelect (overtaking ++ [other]) := by
  rcases List.eq_nil_or_concat overtaking with rfl | ⟨front, final, rfl⟩
  · exact ⟨fun _ => hopen, by simp⟩
  · have hmore : final.last = false := by
      by_contra hlast
      simp [behind, hlast] at hopen
    refine ⟨fun _ => hrest.opened (by simp), ?_⟩
    have hfront := hrest.more
    rw [List.concat_eq_append, List.dropLast_concat] at hfront ⊢
    intro earlier hearlier
    rcases List.mem_append.mp hearlier with hinside | hfinal
    · exact hfront earlier hinside
    · rwa [List.mem_singleton.mp hfinal]

theorem Waiting.step (hwaiting : Waiting beat before overtaking config) (call : Call) :
    (∃ overtaking, Waiting beat before overtaking (step config call)) ∨
      (TxMerge.step config call).sent = before.sent ++ overtaking ++ [beat] := by
  cases step_holding hwaiting.held call with
  | taken _ _ _ hsent => exact Or.inr (hwaiting.sent ▸ hsent)
  | overtaken other hport hheld hsent hnext =>
      refine Or.inl ⟨overtaking ++ [other], hheld, ?_, ?_,
        hwaiting.rest.push (hwaiting.port.symm.trans hport) other⟩
      · rw [hsent, hwaiting.sent, List.append_assoc]
      · rw [hnext, behind, List.getLast?_concat]
  | stay _ hheld _ _ hsent hnext =>
      exact Or.inl ⟨overtaking, hheld, hsent.trans hwaiting.sent, hnext.trans hwaiting.port,
        hwaiting.rest⟩

theorem happen_isPrefix (config : Config) (event : Event) :
    config.sent <+: (happen config event).sent := by
  cases event with
  | call call =>
      rw [happen]
      cases step_effect config call with
      | arp beat _ _ _ hsent => exact hsent ▸ List.prefix_append _ _
      | ipv4 beat _ _ _ hsent => exact hsent ▸ List.prefix_append _ _
      | stay _ _ hsent => exact hsent ▸ List.prefix_rfl
  | feed lane more => exact (feed_sent config lane more).1 ▸ List.prefix_rfl

theorem happens_isPrefix (events : List Event) (config : Config) :
    config.sent <+: (events.foldl happen config).sent := by
  induction events generalizing config with
  | nil => exact List.prefix_rfl
  | cons event rest ih => exact (happen_isPrefix config event).trans (ih _)

/-- Whatever happens, a held ARP beat is the next beat sent behind the rest of the
packet that was open. -/
theorem waits (hwaiting : Waiting beat before overtaking config) (events : List Event) :
    (∃ overtaking, Waiting beat before overtaking (events.foldl happen config)) ∨
      ∃ overtaking, OpenRest before.state.portSelect overtaking ∧
        before.sent ++ overtaking ++ [beat] <+: (events.foldl happen config).sent := by
  induction events generalizing config overtaking with
  | nil => exact Or.inl ⟨overtaking, hwaiting⟩
  | cons event rest ih =>
      cases event with
      | call call =>
          rcases hwaiting.step call with ⟨later, hlater⟩ | htaken
          · exact ih hlater
          · exact Or.inr ⟨overtaking, hwaiting.rest, htaken ▸ happens_isPrefix rest _⟩
      | feed lane more =>
          obtain ⟨hsent, hstate⟩ := feed_sent config lane more
          have hlater : Waiting beat before overtaking (feed config lane more) :=
            ⟨hstate ▸ hwaiting.held, hsent.trans hwaiting.sent, hstate ▸ hwaiting.port,
              hwaiting.rest⟩
          exact ih hlater

/-- Between packets a call that is not refused takes the beat. -/
theorem Waiting.takes (hwaiting : Waiting beat before overtaking config)
    (hport : config.state.portSelect ≠ .ipv4) {call : Call} (haccept : call.accept = true) :
    (TxMerge.step config call).sent = before.sent ++ overtaking ++ [beat] := by
  cases step_holding hwaiting.held call with
  | taken _ _ _ hsent => exact hwaiting.sent ▸ hsent
  | overtaken other hopen => exact absurd hopen hport
  | stay hrefused => simp [hrefused hport] at haccept

/-! ## All ARP packets first -/

/-- With both input registers empty nothing is merged. -/
theorem step_empty {config : Config} (harp : config.state.stage0Arp = none)
    (hipv4 : config.state.stage0Ipv4 = none) (call : Call) :
    (step config call).arp = config.arp ∧ (step config call).ipv4 = config.ipv4 ∧
      (step config call).sent = config.sent ∧
      (step config call).state.portSelect = config.state.portSelect := by
  have hsent := (⟨config.output, call.accept⟩ : StreamOut Beat).flush_append config.state.stage1
  have hmerge : mergeStage (config.flushed call) = config.flushed call := by
    cases hstage1 : (config.flushed call).stage1 <;>
      simp [mergeStage, Config.flushed, harp, hipv4]
  rw [step_eq, hmerge]
  exact ⟨(⟨config.inputArp, call.deliverArp⟩ : StreamIn Beat).fill_append _,
    (⟨config.inputIpv4, call.deliverIpv4⟩ : StreamIn Beat).fill_append _, hsent, rfl⟩

/-- Behind a read that is served an empty register means that nothing is left. -/
theorem arp_eq_nil_of_served {config : Config} {call : Call} (hserved : call.deliverArp = true)
    (hnone : (step config call).state.stage0Arp = none) : (step config call).arp = [] := by
  rw [Config.arp, hnone]
  rw [step_eq] at hnone ⊢
  simp only [hserved] at hnone ⊢
  generalize (mergeStage (config.flushed call)).stage0Arp = register at hnone ⊢
  cases register with
  | some beat => simp [StreamIn.fill] at hnone
  | none => cases hinput : config.inputArp <;> simp_all [StreamIn.fill, StreamIn.tryRead]

/-- Nothing of the IPv4 lane has been merged before the ARP lane is exhausted. -/
structure ArpFirst (arp ipv4 : List Beat) (config : Config) : Prop where
  whole : config.sent ++ (config.arp ++ config.ipv4) = arp ++ ipv4
  port : config.arp ≠ [] → config.state.portSelect ≠ .ipv4
  empty : config.arp ≠ [] → config.state.stage0Arp = none → config.state.stage0Ipv4 = none

variable {arp ipv4 : List Beat}

theorem step_arpFirst (config : Config) (call : Call) (hserved : call.deliverArp = true)
    (hconfig : ArpFirst arp ipv4 config) : ArpFirst arp ipv4 (step config call) := by
  have hempty : (step config call).arp ≠ [] → (step config call).state.stage0Arp = none →
      (step config call).state.stage0Ipv4 = none :=
    fun hsome hnone => absurd (arp_eq_nil_of_served hserved hnone) hsome
  have hwhole := hconfig.whole
  by_cases hleft : config.arp = []
  · cases step_effect config call with
    | arp beat _ harp => simp [hleft] at harp
    | ipv4 beat _ hipv4 harp hsent _ =>
        refine ⟨?_, fun hsome => absurd (harp.trans hleft) hsome, hempty⟩
        rw [← hwhole, hsent, harp, hleft, hipv4, List.append_assoc]
        rfl
    | stay harp hipv4 hsent hport =>
        exact ⟨by rw [hsent, harp, hipv4, hwhole], fun hsome => absurd (harp.trans hleft) hsome,
          hempty⟩
  · have hopen := hconfig.port hleft
    cases hheld : config.state.stage0Arp with
    | none =>
        obtain ⟨harp, hipv4, hsent, hport⟩ := step_empty hheld (hconfig.empty hleft hheld) call
        exact ⟨by rw [hsent, harp, hipv4, hwhole], fun _ => hport ▸ hopen, hempty⟩
    | some beat =>
        cases step_holding hheld call with
        | taken _ harp hipv4 hsent hport =>
            refine ⟨?_, fun _ => hport, hempty⟩
            rw [← hwhole, hsent, harp, hipv4, List.append_assoc]
            rfl
        | overtaken _ hport => exact absurd hport hopen
        | stay _ _ harp hipv4 hsent hport =>
            exact ⟨by rw [hsent, harp, hipv4, hwhole], fun _ => hport ▸ hopen, hempty⟩

theorem run_arpFirst (schedule : List Call) (hserved : ∀ call ∈ schedule, call.deliverArp = true)
    (config : Config) (hconfig : ArpFirst arp ipv4 config) :
    ArpFirst arp ipv4 (run config schedule) := by
  induction schedule generalizing config with
  | nil => exact hconfig
  | cons call rest ih =>
      obtain ⟨hcall, hrest⟩ := List.forall_mem_cons.mp hserved
      exact ih hrest (step config call) (step_arpFirst config call hcall hconfig)

theorem start_arpFirst (arp ipv4 : List Beat) : ArpFirst arp ipv4 (start arp ipv4) where
  whole := rfl
  port _ := by simp [start]
  empty _ _ := rfl

/-- As long as the reads of the ARP lane are served, the merge is fixed: all ARP packets
come out before the first IPv4 packet, however the output is refused. -/
theorem txMerge_arpFirst (arp ipv4 : List (List Beat))
    (harp : ∀ packet ∈ arp, IsPacket Beat.last packet)
    (hipv4 : ∀ packet ∈ ipv4, IsPacket Beat.last packet) (schedule : List Call)
    (hserved : ∀ call ∈ schedule, call.deliverArp = true) :
    let config := run (start arp.flatten ipv4.flatten) schedule
    config.output <+: arp.flatten ++ ipv4.flatten ∧
      ∃ bound, ∀ rounds : List (List Call), bound ≤ rounds.length →
        (∀ round ∈ rounds, IsRound config round ∧ ∀ call ∈ round, call.deliverArp = true) →
        (run config rounds.flatten).output = arp.flatten ++ ipv4.flatten := by
  intro config
  have hfirst : ArpFirst arp.flatten ipv4.flatten config :=
    run_arpFirst schedule hserved _ (start_arpFirst _ _)
  have hconfig : Accounted arp.flatten ipv4.flatten config :=
    run_accounted schedule _ (start_accounted (Framed.flatten arp harp) (Framed.flatten ipv4 hipv4))
  refine ⟨?_, ?_⟩
  · rw [← hfirst.whole, Config.sent, List.append_assoc]
    exact List.prefix_append _ _
  · obtain ⟨bound, hbound⟩ := run_drains hconfig
    refine ⟨bound, ?_⟩
    intro rounds hlength hrounds
    have hdrained := hbound rounds hlength fun round hmem => (hrounds round hmem).1
    have hlater : ArpFirst arp.flatten ipv4.flatten (run config rounds.flatten) := by
      refine run_arpFirst rounds.flatten ?_ config hfirst
      intro call hcall
      obtain ⟨round, hround, hmem⟩ := List.mem_flatten.mp hcall
      exact (hrounds round hround).2 call hmem
    have hwhole := hlater.whole
    rw [hdrained.arp, hdrained.ipv4, Config.sent, hdrained.stage1] at hwhole
    simpa using hwhole

theorem txMerge_arpFirst_test :
    (∀ packet ∈ arpTestPkt, IsPacket Beat.last packet) ∧
      (∀ packet ∈ ipv4TestPkt, IsPacket Beat.last packet) ∧
      let config := run (start arpTestPkt.flatten ipv4TestPkt.flatten)
        (List.replicate 9 ⟨true, true, true⟩)
      config.output.length = 7 ∧ config.output <+: arpTestPkt.flatten ++ ipv4TestPkt.flatten ∧
        ∃ bound, ∀ rounds : List (List Call), bound ≤ rounds.length →
          (∀ round ∈ rounds, IsRound config round ∧ ∀ call ∈ round, call.deliverArp = true) →
          (run config rounds.flatten).output = arpTestPkt.flatten ++ ipv4TestPkt.flatten := by
  have harp : ∀ packet ∈ arpTestPkt, IsPacket Beat.last packet := by decide
  have hipv4 : ∀ packet ∈ ipv4TestPkt, IsPacket Beat.last packet := by decide
  exact ⟨harp, hipv4, by decide, txMerge_arpFirst arpTestPkt ipv4TestPkt harp hipv4
    (List.replicate 9 ⟨true, true, true⟩) (by decide)⟩

end IcmpServer.TxMerge
