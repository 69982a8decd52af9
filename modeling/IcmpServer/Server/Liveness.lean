import IcmpServer.Server.Settling

/-! # Every packet is answered

Once the MAC delivers nothing more and every component gets its turn again and again,
the server sends all it has to send: the echo of every ICMP packet and a reply to every
ARP request accepted, each exactly once.
-/

namespace IcmpServer.Server

open Elastic Rtl Transmit Receive

variable {scfifo : Scfifo} {words : scfifo.State → List (BitVec 80)}
  {addresses : ArpProc.Addresses} {pps : List (BitVec 8)} {stream : List (List L8Beat)}
  {state : State scfifo}

/-! ## Packet ends on the wire -/

/-- `eop` is zero or one: the components test the byte, `ulong2_to_l8` its lowest bit. -/
def FlaggedEop (beat : Beat) : Prop :=
  beat.eop = 0#8 ∨ beat.eop = 1#8

theorem endofpacket_onWire_of_flagged {beat : Beat} (hflagged : FlaggedEop beat) :
    (onWire beat).endofpacket = beat.last := by
  rcases hflagged with heop | heop <;> rw [onWire, Converter.nextStage0, toL8, Beat.last, heop] <;>
    rfl

theorem flaggedEop_echoed {packet : List L8Beat}
    (hpasses : ¬ IcmpProc.Wedges (packet.map fromWire)) :
    ∀ beat ∈ IcmpProc.echoed (packet.map fromWire), FlaggedEop beat := by
  intro beat hbeat
  have hmarkers := List.mem_map_of_mem (f := IcmpProc.markers) hbeat
  rw [IcmpProc.map_markers_of_passes hpasses] at hmarkers
  obtain ⟨source, hsource, hsame⟩ := List.mem_map.mp hmarkers
  obtain ⟨wire, -, rfl⟩ := List.mem_map.mp hsource
  have heop : (fromWire wire).eop = beat.eop := (Prod.mk.inj (Prod.mk.inj hsame).2).1
  rw [FlaggedEop, ← heop, (markers_fromWire wire).2.1]
  cases wire.endofpacket <;> decide

theorem flaggedEop_sendSequence (mac : BitVec 48) (op : BitVec 64) (ip : BitVec 32)
    {offset : Nat} (hoffset : offset < 6) :
    FlaggedEop (ArpProc.sendSequence addresses mac op ip (BitVec.ofNat 8 offset)
      ArpProc.zeroBeat) := by
  interval_cases offset
  case «5» => exact Or.inr rfl
  all_goals exact Or.inl rfl

theorem flaggedEop_arp {requests : List ArpProc.Received} {frame : List Beat}
    (hframe : IsArpFrame addresses requests frame) : ∀ beat ∈ frame, FlaggedEop beat := by
  intro beat hbeat
  rcases hframe with rfl | ⟨sources, -, rfl⟩ <;>
  · obtain ⟨offset, hoffset, rfl⟩ := List.mem_map.mp hbeat
    exact flaggedEop_sendSequence _ _ _ (List.mem_range.mp hoffset)

theorem isPacket_onWire {packet : List Beat} (hpacket : IsPacket Beat.last packet)
    (hflagged : ∀ beat ∈ packet, FlaggedEop beat) :
    IsPacket L8Beat.endofpacket (packet.map onWire) := by
  refine hpacket.of_map_eq ?_
  rw [List.map_map]
  exact List.map_congr_left fun beat hbeat => endofpacket_onWire_of_flagged (hflagged beat hbeat)

/-- What has been merged are packets on the wire as well. -/
theorem Merged.packets (hstate : Merged words addresses pps stream state)
    (hstream : ∀ packet ∈ stream, IsPacket L8Beat.endofpacket packet ∧ packet.length ≤ 2045)
    (hpasses : ∀ packet ∈ icmpOf stream, ¬ IcmpProc.Wedges packet) :
    ∃ sent : List (List L8Beat), state.merge.output.map onWire = sent.flatten ∧
      ∀ packet ∈ sent, IsPacket L8Beat.endofpacket packet ∧ packet.length ≤ 2045 := by
  have hpackets := fun packet hmem => (hstream packet hmem).1
  obtain ⟨frames, merged, harp, hframes, hmerged, houtput⟩ := hstate.output_eq hpackets hpasses
  have hwritten : frames.flatten <+: state.arp.output := harp ▸ List.prefix_rfl
  have hsix := (frames_length_le (ArpProc.reached_accounted hstate.accounted.arp) hframes
    hwritten).1
  have hechoes := echoes_isPacket hpackets hpasses
  -- whatever has been merged is a frame or an echo
  have hpiece : ∀ packet ∈ merged, (IsPacket Beat.last packet ∧ packet.length ≤ 2045) ∧
      ∀ beat ∈ packet, FlaggedEop beat := by
    intro packet hmem
    rcases List.mem_append.mp (hmerged.perm.subset hmem) with hframe | hecho
    · have harpFrame := arpFrames hstate.accounted hframes hwritten packet hframe
      exact ⟨⟨hframes packet hframe, by rw [hsix packet hframe]; decide⟩,
        flaggedEop_arp harpFrame⟩
    · obtain ⟨source, hsource, rfl⟩ := List.mem_map.mp hecho
      obtain ⟨wire, hwire, rfl⟩ :=
        List.mem_map.mp (List.mem_filter.mp (List.mem_filter.mp hsource).1).1
      refine ⟨⟨hechoes _ hecho, ?_⟩, flaggedEop_echoed (hpasses _ hsource)⟩
      rw [IcmpProc.length_echoed_of_passes (hpasses _ hsource), List.length_map]
      exact (hstream wire hwire).2
  refine ⟨merged.map fun packet => packet.map onWire, by rw [houtput, List.map_flatten], ?_⟩
  intro packet hmem
  obtain ⟨source, hsource, rfl⟩ := List.mem_map.mp hmem
  obtain ⟨⟨hpacket, hlength⟩, hflagged⟩ := hpiece source hsource
  exact ⟨isPacket_onWire hpacket hflagged, by rwa [List.length_map]⟩

/-! ## The last two steps -/

section Lasts

variable (hideal : scfifo.Ideal words)
  (hstream : ∀ packet ∈ stream, IsPacket L8Beat.endofpacket packet ∧ packet.length ≤ 2045)
  (hpasses : ∀ packet ∈ icmpOf stream, ¬ IcmpProc.Wedges packet)
include hideal hstream hpasses

/-- A clock edge leaves the packet buffer with a packet to send or ready. -/
theorem Merged.ends (hstate : Merged words addresses pps stream state) (padding : BitVec 40)
    (inValid outReady : Bool) :
    (step addresses state
        (.transmitter padding inValid outReady)).transmitter.pktBuf.state.fromL8Ready = false →
      0 < (step addresses state
        (.transmitter padding inValid outReady)).transmitter.pktBuf.state.ends words := by
  obtain ⟨sent, hsent, hpackets⟩ := hstate.packets hstream hpasses
  have haccepted := hstate.accounted.wired
  rw [hsent] at haccepted
  exact hstate.accounted.transmitter.pktBuf.ends_pos_step hideal hpackets haccepted _

theorem sending_lasts :
    Lasting (step addresses) Undisturbed (Sending words addresses pps stream) := by
  intro state action hquiet hstate
  have hpackets := fun packet hmem => (hstream packet hmem).1
  refine ⟨merged_lasts hideal hpackets state action hquiet hstate.toMerged, ?_⟩
  cases action with
  | transmitter padding inValid outReady =>
      exact hstate.toMerged.ends hideal hstream hpasses padding inValid outReady
  | _ => exact hstate.ends

omit hideal hpasses in
theorem Merged.step_output_eq (hstate : Merged words addresses pps stream state)
    (action : Action) : (step addresses state action).merge.output = state.merge.output := by
  by_cases hmerge : ∃ call, action = .merge call
  · obtain ⟨call, rfl⟩ := hmerge
    exact step_output_of_drained call hstate.merge
  · have hpackets := fun packet hmem => (hstream packet hmem).1
    rw [hstate.step_merge_eq hpackets action (not_exists.mp hmerge)]

omit hideal in
/-- When everything is in the packet buffer it ends with a packet end. -/
theorem Sending.ends_of_empty (hstate : Sending words addresses pps stream state)
    (hopen : ¬ Settled words addresses pps stream state)
    (hheld : state.transmitter.toL8.state.held = 0) (hmerged : state.merged = []) :
    0 < state.transmitter.pktBuf.state.ends words := by
  have haccepted : state.transmitter.pktBuf.accepted = state.merge.output.map onWire := by
    rw [hstate.accounted.transmitter.wired,
      hstate.accounted.transmitter.toL8.transferred_eq hheld, hstate.accounted.merged, hmerged,
      List.append_nil, List.map_map]
    exact List.map_congr_left fun word _ => convert_eq word
  obtain ⟨sent, hsent, hpackets⟩ := hstate.packets hstream hpasses
  apply hstate.accounted.transmitter.pktBuf.ends_pos
  · rw [haccepted, hsent]
    exact Framed.flatten sent fun packet hmem => (hpackets packet hmem).1
  · intro hdone
    exact hopen ⟨hstate, hdone.trans haccepted⟩

theorem settled_lasts :
    Lasting (step addresses) Undisturbed (Settled words addresses pps stream) := by
  intro state action hquiet hstate
  have hnext := sending_lasts hideal hstream hpasses state action hquiet hstate.toSending
  refine ⟨hnext, ?_⟩
  have hgrows : state.transmitter.pktBuf.transferred <+:
      (step addresses state action).transmitter.pktBuf.transferred := by
    cases action with
    | transmitter padding inValid outReady => exact List.prefix_append _ _
    | _ => exact List.prefix_rfl
  have hlossless := hnext.accounted.transmitter.pktBuf.lossless hideal
  have hbounded := hlossless.transferred.trans hnext.accounted.wired
  rw [hstate.transferred] at hgrows
  rw [hstate.step_output_eq hstream action] at hbounded ⊢
  exact hbounded.eq_of_length_le hgrows.length_le

end Lasts

/-! ## Stages -/

/-- What each component needs: a clock edge or a call at which it is neither refused
nor left without its input. -/
inductive Need
  | toUlong2
  | etype
  | splitter
  | chain (part : ((Unit ⊕ Unit) ⊕ Unit) ⊕ Unit)
  | arp
  | merge
  | transmitter

/-- The action is what is needed. -/
def Meets : Need → Action → Prop
  | .toUlong2, .toUlong2 cycle => cycle.outReady = true
  | .etype, .etype call => call.deliver = true ∧ ∀ port, call.accept port = true
  | .splitter, .path (.split call) => call.deliver = true ∧ ∀ port, call.accept port = true
  | .chain part, .path (.chain call) => call = ⟨part, true, true⟩
  | .arp, .arp call => call = ⟨true, true, true⟩
  | .merge, .merge call => call = ⟨true, true, true⟩
  | .transmitter, .transmitter _ inValid outReady => inValid = true ∧ outReady = true
  | _, _ => False

/-- Words still to be transmitted, weighted like those in the transmitter. -/
def State.unsent (words : scfifo.State → List (BitVec 80)) (state : State scfifo) : Nat :=
  20 * state.merged.length + state.transmitter.work words

variable (words addresses state) in
/-- A word on its way to the transmitter or one in it. -/
theorem unsent_transmitter (padding : BitVec 40) (inValid outReady : Bool) :
    (step addresses state (.transmitter padding inValid outReady)).unsent words +
        20 * (Converter.accepts state.transmitter.toL8.state
          (offered state padding inValid outReady)).length =
      20 * state.merged.length +
        (state.transmitter.step (offered state padding inValid outReady)).work words := by
  have haccepts := congrArg List.length (state.accepts_offered padding inValid outReady)
  rw [List.length_append, List.length_map] at haccepts
  simp only [State.unsent, step]
  omega

section Stages

variable {rounds : Nat → List Action} {first : Nat} (hideal : scfifo.Ideal words)
include hideal

theorem leads_converted (hrounds : FairRounds Undisturbed Meets rounds)
    (hfirst : Arrived words addresses pps stream
      (afterRounds (step addresses) state rounds first)) :
    ∃ later, Converted words addresses pps stream
      (afterRounds (step addresses) state rounds later) := by
  refine leads_of_need .toUlong2 (fun state => state.toUlong2.state.work) (arrived_lasts hideal)
    (converted_lasts hideal) ?_ ?_ hrounds hfirst
  · intro state action hquiet hstate
    cases action with
    | toUlong2 cycle =>
        have hnone : cycle.inValid = false := hquiet
        exact converter_work_le l8ToUlong2 hstate.accounted.toUlong2.sound cycle (by simp [hnone])
    | _ => exact Nat.le_refl _
  · intro state action hquiet hstate hopen hmeets
    cases action with
    | toUlong2 cycle =>
        have hnone : cycle.inValid = false := hquiet
        exact converter_work_lt l8ToUlong2 hstate.accounted.toUlong2.sound cycle (by simp [hnone])
          hmeets fun hheld => hopen ⟨hstate, hheld⟩
    | _ => exact hmeets.elim

theorem leads_split (hrounds : FairRounds Undisturbed Meets rounds)
    (hstream : ∀ packet ∈ stream, IsPacket L8Beat.endofpacket packet)
    (hfirst : Converted words addresses pps stream
      (afterRounds (step addresses) state rounds first)) :
    ∃ later, Split words addresses pps stream
      (afterRounds (step addresses) state rounds later) := by
  refine leads_of_need .etype (fun state => state.etype.remaining) (converted_lasts hideal)
    (split_lasts hideal) ?_ ?_ hrounds hfirst
  · intro state action hquiet hstate
    cases action with
    | toUlong2 cycle => rw [hstate.step_etype_eq hquiet]
    | etype call => exact RxSplit.step_remaining_le RxSplit.etypeUpdate state.etype call
    | _ => exact Nat.le_refl _
  · intro state action hquiet hstate hopen hmeets
    cases action with
    | etype call =>
        have hframed := hstate.etype_accounted.framed
          (Framed.flatten _ (received_isPacket hstream))
        have hmoves : RxSplit.step RxSplit.rxSplitByEtype state.etype call ≠ state.etype :=
          @RxSplit.step_moves _ _ _ RxSplit.etypeRouter state.etype call hframed hmeets.2
            (Or.inl hmeets.1) fun hdrained => hopen ⟨hstate, hdrained⟩
        exact (RxSplit.step_idle_or_lt RxSplit.etypeUpdate state.etype call).resolve_left hmoves
    | _ => exact hmeets.elim

theorem leads_filtered (hrounds : FairRounds Undisturbed Meets rounds)
    (hstream : ∀ packet ∈ stream, IsPacket L8Beat.endofpacket packet)
    (hfirst : Split words addresses pps stream (afterRounds (step addresses) state rounds first)) :
    ∃ later, Filtered words addresses pps stream
      (afterRounds (step addresses) state rounds later) := by
  refine leads_of_need .splitter (fun state => state.path.splitter.remaining) (split_lasts hideal)
    (filtered_lasts hideal) ?_ ?_ hrounds hfirst
  · intro state action hquiet hstate
    cases action with
    | etype call => rw [(hstate.step_etype call).1]
    | path call =>
        cases call with
        | split call =>
            exact RxSplit.step_remaining_le RxSplit.ipv4protoUpdate state.path.splitter call
        | chain call => exact Nat.le_refl _
    | _ => exact Nat.le_refl _
  · intro state action hquiet hstate hopen hmeets
    cases action with
    | path call =>
        cases call with
        | split call =>
            have hpackets : ∀ packet ∈ ofEtype .ipv4 stream, IsPacket Beat.last packet :=
              fun packet hmem => received_isPacket hstream packet (List.mem_filter.mp hmem).1
            have hframed := (hstate.path_accounted hstream).splitter.framed
              (Framed.flatten _ hpackets)
            have hmoves : RxSplit.step RxSplit.rxSplitByIpv4proto state.path.splitter call ≠
                state.path.splitter :=
              @RxSplit.step_moves _ _ _ RxSplit.ipv4protoRouter state.path.splitter call hframed
                hmeets.2 (Or.inl hmeets.1) fun hdrained => hopen ⟨hstate, hdrained⟩
            exact (RxSplit.step_idle_or_lt RxSplit.ipv4protoUpdate state.path.splitter
              call).resolve_left hmoves
        | chain call => exact hmeets.elim
    | _ => exact hmeets.elim

omit hideal in
/-- Nothing more comes in front of the chain. -/
theorem Filtered.chain_cases (hstate : Filtered words addresses pps stream state)
    (action : Action) :
    (step addresses state action).path.chain = state.path.chain ∨
      ∃ call, (step addresses state action).path.chain =
        IcmpProc.icmpProc.step state.path.chain call := by
  cases action with
  | etype call => exact Or.inl (congrArg _ (hstate.step_etype call).1)
  | path call =>
      cases call with
      | split call => exact Or.inl (hstate.step_chain call)
      | chain call => exact Or.inr ⟨call, rfl⟩
  | _ => exact Or.inl rfl

/-- Which component of the chain can go on depends on what they hold. -/
def chainStage (hstream : ∀ packet ∈ stream, IsPacket L8Beat.endofpacket packet) :
    Stage (step addresses) Undisturbed Meets (Filtered words addresses pps stream)
      (Echoed words addresses pps stream) IcmpProc.icmpProc.Config where
  measure state := IcmpProc.icmpProcAccount.remaining state.path.chain
  view state := state.path.chain
  inv_lasts := filtered_lasts hideal
  next_lasts := echoed_lasts hideal hstream
  le state action _ hstate := by
    rcases hstate.chain_cases action with hsame | ⟨call, hcall⟩
    · rw [hsame]
    · rw [hcall]
      rcases IcmpProc.icmpProcAccount.step_idle_or_lt state.path.chain call
          (hstate.chain_accounted hstream).1 with hidle | hless
      · rw [hidle]
      · exact Nat.le_of_lt hless
  view_eq state action _ hstate hmeasure := by
    rcases hstate.chain_cases action with hsame | ⟨call, hcall⟩
    · exact hsame
    · rw [hcall] at hmeasure ⊢
      exact (IcmpProc.icmpProcAccount.step_idle_or_lt state.path.chain call
        (hstate.chain_accounted hstream).1).resolve_right (Nat.lt_irrefl _ |> (hmeasure ▸ ·))
  live state hstate hopen := by
    obtain ⟨part, hmoves⟩ := IcmpProc.icmpProcAccount.exists_moves IcmpProc.isRound_icmpProc
      state.path.chain (hstate.chain_accounted hstream) fun hdone => hopen ⟨hstate, hdone⟩
    refine ⟨.chain part, ?_⟩
    intro other action hother _ hview _ hmeets
    cases action with
    | path call =>
        cases call with
        | split call => exact hmeets.elim
        | chain call =>
            obtain rfl : call = ⟨part, true, true⟩ := hmeets
            rw [← hview] at hmoves
            exact (IcmpProc.icmpProcAccount.step_idle_or_lt other.path.chain _
              (hother.chain_accounted hstream).1).resolve_left hmoves
    | _ => exact hmeets.elim

theorem leads_rested (hrounds : FairRounds Undisturbed Meets rounds)
    (hstream : ∀ packet ∈ stream, IsPacket L8Beat.endofpacket packet)
    (hfirst : Echoed words addresses pps stream (afterRounds (step addresses) state rounds first)) :
    ∃ later, Rested words addresses pps stream
      (afterRounds (step addresses) state rounds later) := by
  refine leads_of_need .arp (fun state => state.arp.work) (echoed_lasts hideal hstream)
    (rested_lasts hideal hstream) ?_ ?_ hrounds hfirst
  · intro state action hquiet hstate
    cases action with
    | etype call => rw [(hstate.step_etype call).2]
    | arp call =>
        exact ArpProc.step_work_le addresses (ArpProc.reached_accounted hstate.accounted.arp).idx_le
          call
    | _ => exact Nat.le_refl _
  · intro state action hquiet hstate hopen hmeets
    cases action with
    | arp call =>
        obtain rfl : call = ⟨true, true, true⟩ := hmeets
        exact ArpProc.step_work_lt addresses
          (ArpProc.reached_accounted hstate.accounted.arp).idx_le
          fun hrest => hopen ⟨hstate, hrest⟩
    | _ => exact hmeets.elim

section Passes

variable (hrounds : FairRounds Undisturbed Meets rounds)
  (hstream : ∀ packet ∈ stream, IsPacket L8Beat.endofpacket packet ∧ packet.length ≤ 2045)
  (hpasses : ∀ packet ∈ icmpOf stream, ¬ IcmpProc.Wedges packet)
include hrounds hstream hpasses

theorem leads_merged
    (hfirst : Rested words addresses pps stream (afterRounds (step addresses) state rounds first)) :
    ∃ later, Merged words addresses pps stream
      (afterRounds (step addresses) state rounds later) := by
  have hpackets := fun packet hmem => (hstream packet hmem).1
  refine leads_of_need .merge (fun state => state.merge.remaining) (rested_lasts hideal hpackets)
    (merged_lasts hideal hpackets) ?_ ?_ hrounds hfirst
  · intro state action hquiet hstate
    by_cases hmerge : ∃ call, action = .merge call
    · obtain ⟨call, rfl⟩ := hmerge
      rcases TxMerge.step_idle_or_lt state.merge call with hidle | hless
      · exact Nat.le_of_eq (congrArg TxMerge.Config.remaining hidle)
      · exact Nat.le_of_lt hless
    · rw [hstate.step_merge_eq hpackets action (not_exists.mp hmerge)]
  · intro state action hquiet hstate hopen hmeets
    cases action with
    | merge call =>
        obtain rfl : call = ⟨true, true, true⟩ := hmeets
        have hmoves := TxMerge.step_moves state.merge ⟨true, true, true⟩
          (hstate.merge_accounted hpackets hpasses) rfl (Or.inl rfl) (Or.inl rfl)
          fun hdrained => hopen ⟨hstate, hdrained⟩
        exact (TxMerge.step_idle_or_lt state.merge _).resolve_left hmoves
    | _ => exact hmeets.elim

theorem leads_sending
    (hfirst : Merged words addresses pps stream (afterRounds (step addresses) state rounds first)) :
    ∃ later, Sending words addresses pps stream
      (afterRounds (step addresses) state rounds later) := by
  have hpackets := fun packet hmem => (hstream packet hmem).1
  refine leads_of_need .transmitter
    (fun state => if state.transmitter.pktBuf.state.fromL8Ready = false ∧
      state.transmitter.pktBuf.state.ends words = 0 then 1 else 0)
    (merged_lasts hideal hpackets) (sending_lasts hideal hstream hpasses) ?_ ?_ hrounds hfirst
  · intro state action hquiet hstate
    cases action with
    | transmitter padding inValid outReady =>
        have hends := hstate.ends hideal hstream hpasses padding inValid outReady
        rw [if_neg fun hstuck => absurd (hends hstuck.1) (by omega)]
        exact Nat.zero_le _
    | _ => exact Nat.le_refl _
  · intro state action hquiet hstate hopen hmeets
    cases action with
    | transmitter padding inValid outReady =>
        have hends := hstate.ends hideal hstream hpasses padding inValid outReady
        rw [if_neg fun hstuck => absurd (hends hstuck.1) (by omega), if_pos]
        · exact Nat.one_pos
        · by_contra hnot
          refine hopen ⟨hstate, ?_⟩
          intro hrefuses
          exact Nat.pos_of_ne_zero fun hnone => hnot ⟨hrefuses, hnone⟩
    | _ => exact hmeets.elim

theorem leads_settled
    (hfirst : Sending words addresses pps stream
      (afterRounds (step addresses) state rounds first)) :
    ∃ later, Settled words addresses pps stream
      (afterRounds (step addresses) state rounds later) := by
  refine leads_of_need .transmitter (fun state => state.unsent words)
    (sending_lasts hideal hstream hpasses) (settled_lasts hideal hstream hpasses) ?_ ?_ hrounds
    hfirst
  · intro state action hquiet hstate
    cases action with
    | transmitter padding inValid outReady =>
        have hunsent := unsent_transmitter words addresses state padding inValid outReady
        have hwork := Transmitter.step_work_le hideal hstate.accounted.transmitter
          (offered state padding inValid outReady)
        simp only [State.unsent] at hunsent ⊢
        omega
    | merge call =>
        have hsame := step_output_of_drained call hstate.merge
        have hmerged : (step addresses state (.merge call)).merged = state.merged := by
          simp only [step, hsame, fresh_self, List.append_nil]
        simp only [State.unsent, hmerged]
        exact Nat.le_refl _
    | _ => exact Nat.le_refl _
  · intro state action hquiet hstate hopen hmeets
    cases action with
    | transmitter padding inValid outReady =>
        obtain ⟨rfl, rfl⟩ := hmeets
        have hunsent := unsent_transmitter words addresses state padding true true
        have hwork := Transmitter.step_work_lt hideal hstate.accounted.transmitter
          (offered state padding true true) rfl ?_
        · simp only [State.unsent] at hunsent ⊢
          omega
        rintro (hrefuses | ⟨hheld, hnone⟩)
        · exact hstate.ends hrefuses
        · exact hstate.ends_of_empty hstream hpasses hopen hheld (by simpa [offered] using hnone)
    | _ => exact hmeets.elim

theorem settles
    (hfirst : Arrived words addresses pps stream
      (afterRounds (step addresses) state rounds first)) :
    ∃ settled, ∀ count, settled ≤ count →
      Settled words addresses pps stream (afterRounds (step addresses) state rounds count) := by
  have hpackets := fun packet hmem => (hstream packet hmem).1
  obtain ⟨_, hconverted⟩ := leads_converted hideal hrounds hfirst
  obtain ⟨_, hsplit⟩ := leads_split hideal hrounds hpackets hconverted
  obtain ⟨_, hfiltered⟩ := leads_filtered hideal hrounds hpackets hsplit
  obtain ⟨_, hechoed⟩ := (chainStage hideal hpackets).leads hrounds hfiltered
  obtain ⟨_, hrested⟩ := leads_rested hideal hrounds hpackets hechoed
  obtain ⟨_, hmerged⟩ := leads_merged hideal hrounds hstream hpasses hrested
  obtain ⟨_, hsending⟩ := leads_sending hideal hrounds hstream hpasses hmerged
  obtain ⟨settled, hsettled⟩ := leads_settled hideal hrounds hstream hpasses hsending
  exact ⟨settled, fun _ hcount =>
    (settled_lasts hideal hstream hpasses).afterRounds hrounds hsettled hcount⟩

end Passes

end Stages

/-! ## The guarantee -/

/-- At rest every request accepted has been answered. -/
theorem Rested.replies (hstate : Rested words addresses pps stream state) :
    state.arp.frames.countP ArpProc.Frame.isReply = state.arp.requests.length := by
  have hanswered := hstate.accounted.answered
  have hrest := hstate.arp
  rw [ArpProc.Config.work, ArpProc.ArpState.work] at hrest
  rw [ArpProc.Answered, ← List.countP_eq_length_filter] at hanswered
  omega

/-- At rest the replies written are those started. -/
theorem Rested.length_replies (hstate : Rested words addresses pps stream state)
    {frames : List (List Beat)} (hframes : ∀ frame ∈ frames, IsPacket Beat.last frame)
    (harp : state.arp.output = frames.flatten) :
    frames.length = state.arp.frames.length ∧
      (repliesOf addresses frames).length = state.arp.requests.length := by
  have hwritten : frames.flatten <+: state.arp.output := harp ▸ List.prefix_rfl
  have haccounted := ArpProc.reached_accounted hstate.accounted.arp
  have hlength := haccounted.length_of_rest hstate.arp
  rw [harp, List.length_flatten,
    List.map_congr_left (frames_length_le haccounted hframes hwritten).1, List.map_const',
    List.sum_replicate_nat, Nat.mul_comm] at hlength
  have hcount : frames.length = state.arp.frames.length :=
    Nat.eq_of_mul_eq_mul_left (by decide) hlength
  refine ⟨hcount, ?_⟩
  rw [length_repliesOf haccounted hframes hwritten, hcount, List.take_length, hstate.replies]

/-- What has come out in the end. -/
theorem Settled.answers (hstate : Settled words addresses pps stream state)
    (hstream : ∀ packet ∈ stream, IsPacket L8Beat.endofpacket packet)
    (hpasses : ∀ packet ∈ icmpOf stream, ¬ IcmpProc.Wedges packet) :
    ∃ frames merged, Interleaves frames ((icmpOf stream).map IcmpProc.echoed) merged ∧
      state.transmitter.pktBuf.transferred = merged.flatten.map onWire ∧
      (∀ frame ∈ frames, IsArpFrame addresses state.arp.requests frame) ∧
      frames.length = state.arp.frames.length ∧
      (repliesOf addresses frames).length = state.arp.requests.length := by
  obtain ⟨frames, merged, harp, hframes, hinterleaves, houtput⟩ :=
    hstate.output_eq hstream hpasses
  exact ⟨frames, merged, hinterleaves, by rw [hstate.transferred, houtput],
    arpFrames hstate.accounted hframes (harp ▸ List.prefix_rfl),
    hstate.length_replies hframes harp⟩

/-- From any state reached, when the MAC delivers nothing more and every component gets
its turn again and again, the transmit MAC gets exactly the echoes of all ICMP packets
received, in order, and complete ARP frames between them, of which as many are replies
as requests were accepted. This is reached after finitely many rounds and stays so. -/
theorem server_answers_all {scfifo : Scfifo} {words : scfifo.State → List (BitVec 80)}
    (hideal : scfifo.Ideal words) (addresses : ArpProc.Addresses) (pps : List (BitVec 8))
    (before : List Action) (stream : List (List L8Beat))
    (hstream : ∀ packet ∈ stream, IsPacket L8Beat.endofpacket packet ∧ packet.length ≤ 2045)
    (hpasses : ∀ packet ∈ icmpOf stream, ¬ IcmpProc.Wedges packet) (rounds : Nat → List Action)
    (hrounds : FairRounds Undisturbed Meets rounds) :
    let state := run addresses (start scfifo pps) before
    state.toUlong2.accepted = stream.flatten →
    ∃ settled, ∀ count, settled ≤ count →
      let later := afterRounds (step addresses) state rounds count
      ∃ frames merged, Interleaves frames ((icmpOf stream).map IcmpProc.echoed) merged ∧
        later.transmitter.pktBuf.transferred = merged.flatten.map onWire ∧
        (∀ frame ∈ frames, IsArpFrame addresses later.arp.requests frame) ∧
        frames.length = later.arp.frames.length ∧
        later.arp.frames.countP ArpProc.Frame.isReply = later.arp.requests.length ∧
        (repliesOf addresses frames).length = later.arp.requests.length := by
  intro state haccepted
  have hpackets := fun packet hmem => (hstream packet hmem).1
  have hfirst : Arrived words addresses pps stream
      (afterRounds (step addresses) state rounds 0) :=
    ⟨run_accounted hideal pps before, haccepted⟩
  obtain ⟨settled, hsettled⟩ := settles hideal hrounds hstream hpasses hfirst
  refine ⟨settled, ?_⟩
  intro count hcount
  have hlater := hsettled count hcount
  obtain ⟨frames, merged, hinterleaves, htransferred, hframes, hlength, hreplies⟩ :=
    hlater.answers hpackets hpasses
  exact ⟨frames, merged, hinterleaves, htransferred, hframes, hlength, hlater.replies, hreplies⟩

/-- Calls and clock edges in turn, nothing refused and nothing delivered, are fair. -/
theorem fairRounds_served :
    FairRounds Undisturbed Meets fun _ => served ⟨0#64, false, false, 0#3⟩ false where
  allowed _ action haction := by
    simp only [served, List.mem_cons, List.not_mem_nil, or_false] at haction
    rcases haction with rfl | rfl | rfl | rfl | rfl | rfl | rfl | rfl | rfl | rfl <;>
      first | exact rfl | exact trivial
  meets _ need := by
    cases need with
    | toUlong2 => exact ⟨.toUlong2 ⟨⟨0#64, false, false, 0#3⟩, false, true⟩, by simp [served], rfl⟩
    | etype => exact ⟨.etype ⟨true, fun _ => true⟩, by simp [served], rfl, fun _ => rfl⟩
    | splitter =>
        exact ⟨.path (.split ⟨true, fun _ => true⟩), by simp [served], rfl, fun _ => rfl⟩
    | chain part =>
        refine ⟨.path (.chain ⟨part, true, true⟩), ?_, rfl⟩
        rcases part with ((⟨⟩ | ⟨⟩) | ⟨⟩) | ⟨⟩ <;> simp [served]
    | arp => exact ⟨.arp ArpProc.served, by simp [served], rfl⟩
    | merge => exact ⟨.merge ⟨true, true, true⟩, by simp [served], rfl⟩
    | transmitter => exact ⟨.transmitter 0#40 true true, by simp [served], rfl, rfl⟩

/-- A ping and an ARP request. -/
theorem server_answers_all_test :
    (∀ packet ∈ [testPing, testArpRequest],
        IsPacket L8Beat.endofpacket packet ∧ packet.length ≤ 2045) ∧
      (∀ packet ∈ icmpOf [testPing, testArpRequest], ¬ IcmpProc.Wedges packet) ∧
      ∃ settled, ∀ count, settled ≤ count →
        let later := afterRounds (step .default)
          (run .default (start Scfifo.list []) (testActions (testPing ++ testArpRequest) 0))
          (fun _ => served ⟨0#64, false, false, 0#3⟩ false) count
        ∃ frames merged,
          Interleaves frames ((icmpOf [testPing, testArpRequest]).map IcmpProc.echoed) merged ∧
            later.transmitter.pktBuf.transferred = merged.flatten.map onWire ∧
            (∀ frame ∈ frames, IsArpFrame .default later.arp.requests frame) ∧
            frames.length = later.arp.frames.length ∧
            later.arp.frames.countP ArpProc.Frame.isReply = later.arp.requests.length ∧
            (repliesOf .default frames).length = later.arp.requests.length := by
  have hstream : ∀ packet ∈ [testPing, testArpRequest],
      IsPacket L8Beat.endofpacket packet ∧ packet.length ≤ 2045 := by decide
  have hpasses : ∀ packet ∈ icmpOf [testPing, testArpRequest], ¬ IcmpProc.Wedges packet := by
    decide +kernel
  exact ⟨hstream, hpasses, server_answers_all Scfifo.list_ideal .default []
    (testActions (testPing ++ testArpRequest) 0) [testPing, testArpRequest] hstream hpasses _
    fairRounds_served (by decide +kernel)⟩

end IcmpServer.Server
