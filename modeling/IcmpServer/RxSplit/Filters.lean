import IcmpServer.RxSplit.Progress

/-! # The two filters

`rx_split_by_etype` routes by the EtherType in the second beat of a packet,
`rx_split_by_ipv4proto` by the protocol byte in the third. Packets too short to
have the field go to the other port.
-/

namespace IcmpServer.RxSplit

open Elastic

/-- The first packet of a stream starts with the first beat of the stream. -/
theorem packets_head (beat : Beat) (rest : List Beat) :
    ∃ tail others, packets Beat.last (beat :: rest) = (beat :: tail) :: others := by
  cases hlast : beat.last with
  | true => exact ⟨[], _, packets_cons_last hlast rest⟩
  | false => exact ⟨_, _, packets_cons_more hlast rest⟩

/-- A beat that is not last stands in front of what the first packet was. -/
theorem packets_head_cons {beat : Beat} (hlast : ¬ beat.last = true) {rest packet : List Beat}
    {others : List (List Beat)} (hrest : packets Beat.last rest = packet :: others) :
    packets Beat.last (beat :: rest) = (beat :: packet) :: others := by
  rw [packets_cons_more (Bool.eq_false_of_not_eq_true hlast), hrest]
  rfl

/-- Masking sixteen bits in place compares the field they form. -/
theorem mask_eq_iff (data : BitVec 64) (field : BitVec 16) :
    data &&& 0x00000000ffff0000#64 = field.setWidth 64 <<< 16 ↔ data.extractLsb' 16 16 = field := by
  have hmask : ∀ bit : Fin 64, (0x00000000ffff0000#64).getLsbD bit =
      decide (16 ≤ bit.val ∧ bit.val < 32) := by decide
  constructor
  · intro heq
    apply BitVec.eq_of_getLsbD_eq
    intro bit hbit
    have hwide := congrArg (fun word => word.getLsbD (16 + bit)) heq
    simp only [BitVec.getLsbD_and, hmask ⟨16 + bit, by omega⟩, BitVec.getLsbD_shiftLeft,
      BitVec.getLsbD_setWidth] at hwide
    simp only [BitVec.getLsbD_extractLsb', hbit, decide_true, Bool.true_and]
    have h1 : 16 ≤ 16 + bit ∧ 16 + bit < 32 := by omega
    have h2 : 16 + bit < 64 := by omega
    have h3 : bit < 64 := by omega
    simpa [h1, h2, h3, hbit] using hwide
  · rintro rfl
    apply BitVec.eq_of_getLsbD_eq
    intro bit hbit
    simp only [BitVec.getLsbD_and, hmask ⟨bit, hbit⟩, BitVec.getLsbD_shiftLeft,
      BitVec.getLsbD_setWidth, BitVec.getLsbD_extractLsb']
    by_cases hlow : 16 ≤ bit
    · have hback : 16 + (bit - 16) = bit := by omega
      have hwide : bit - 16 < 64 := by omega
      have hsame : (bit < 32) = (bit - 16 < 16) := propext (by omega)
      simp [hlow, hback, hbit, hwide, hsame, Bool.and_comm]
    · simp [hlow]

/-! ## By EtherType -/

/-- The port of a packet, by bits 31 to 16 of its second beat. -/
def etypeRoute (packet : List Beat) : Etype :=
  match packet with
  | _ :: second :: _ =>
      if second.data.extractLsb' 16 16 = 0x0806#16 then .arp
      else if second.data.extractLsb' 16 16 = 0x0800#16 then .ipv4
      else .other
  | _ => .other

theorem etypeSwitch_eq (first second : Beat) (rest : List Beat) :
    etypeSwitch second.data = etypeRoute (first :: second :: rest) := by
  have harp := mask_eq_iff second.data 0x0806#16
  have hipv4 := mask_eq_iff second.data 0x0800#16
  simp only [etypeSwitch, etypeRoute, ← harp, ← hipv4]
  rfl

/-- Stages 2 and 1 hold the first two beats of the packet in front. -/
def etypeRouter : Router Etype 2 where
  update := etypeUpdate
  route := etypeRoute
  sound stages port later hupdate := by
    obtain ⟨front, behind, hlength⟩ := stages
    match front, behind, hlength with
    | some stage2, [stage1, stage0], _ =>
        simp only [etypeUpdate] at hupdate
        split_ifs at hupdate with hlast
        · obtain rfl := Option.some.inj hupdate
          exact ⟨[stage2], _, packets_cons_last hlast _, rfl⟩
        · match stage1 with
          | some beat =>
              obtain rfl := Option.some.inj hupdate
              obtain ⟨tail, others, hrest⟩ := packets_head beat ([stage0].reduceOption ++ later)
              have hmore := packets_head_cons hlast hrest
              exact ⟨stage2 :: beat :: tail, others, by simpa [Pipeline.contents] using hmore,
                (etypeSwitch_eq stage2 beat tail).symm⟩
  decides stages items free hpacked hitems := by
    obtain ⟨front, behind, hlength⟩ := stages
    match items, behind, hlength with
    | [], _, _ =>
        rcases hitems with rfl | hitems
        · simp [Pipeline.Packed] at hpacked
        · exact absurd hitems not_hasPacket_nil
    | [first], [stage1, stage0], _ =>
        rcases hitems with rfl | hitems
        · simp [Pipeline.Packed] at hpacked
        · obtain ⟨rfl, -⟩ := List.cons_eq_cons.mp hpacked
          cases hlast : first.last with
          | true => simp [etypeUpdate, hlast]
          | false => exact absurd (hitems.tail hlast) not_hasPacket_nil
    | first :: second :: _, [stage1, stage0], _ =>
        simp only [Pipeline.Packed, List.map_cons, List.cons_append, List.cons.injEq] at hpacked
        obtain ⟨rfl, rfl, -⟩ := hpacked
        by_cases hlast : first.last <;> simp [etypeUpdate, hlast]

/-! ## By IPv4 protocol -/

/-- The port of a packet, by the low byte of its third beat. -/
def ipv4protoRoute (packet : List Beat) : Ipv4Proto :=
  match packet with
  | _ :: _ :: third :: _ => if third.data.setWidth 8 = 0x01#8 then .icmp else .other
  | _ => .other

theorem ipv4protoSwitch_eq (first second third : Beat) (rest : List Beat) :
    ipv4protoSwitch third.data = ipv4protoRoute (first :: second :: third :: rest) := by
  have hbyte : third.data &&& 0xff#64 = 0x01#64 ↔ third.data.setWidth 8 = 0x01#8 := by
    have hmask : third.data.toNat &&& 255 = third.data.toNat % 256 :=
      Nat.and_two_pow_sub_one_eq_mod _ 8
    simp [← BitVec.toNat_inj, hmask]
  simp only [ipv4protoSwitch, ipv4protoRoute, hbyte]

/-- Stages 3, 2 and 1 hold the first three beats of the packet in front. -/
def ipv4protoRouter : Router Ipv4Proto 3 where
  update := ipv4protoUpdate
  route := ipv4protoRoute
  sound stages port later hupdate := by
    obtain ⟨front, behind, hlength⟩ := stages
    match front, behind, hlength with
    | some stage3, [stage2, stage1, stage0], _ =>
        simp only [ipv4protoUpdate] at hupdate
        split_ifs at hupdate with hfirst
        · obtain rfl := Option.some.inj hupdate
          exact ⟨[stage3], _, packets_cons_last hfirst _, rfl⟩
        · match stage2 with
          | some second =>
              simp only at hupdate
              have hmore := fun rest => @packets_head_cons stage3 hfirst rest
              split_ifs at hupdate with hsecond
              · obtain rfl := Option.some.inj hupdate
                have hrest := packets_cons_last hsecond ([stage1, stage0].reduceOption ++ later)
                exact ⟨[stage3, second], _, by simpa [Pipeline.contents] using hmore _ hrest, rfl⟩
              · match stage1 with
                | some beat =>
                    obtain rfl := Option.some.inj hupdate
                    obtain ⟨tail, others, hrest⟩ :=
                      packets_head beat ([stage0].reduceOption ++ later)
                    have hrest := packets_head_cons hsecond hrest
                    exact ⟨stage3 :: second :: beat :: tail, others,
                      by simpa [Pipeline.contents] using hmore _ hrest,
                      (ipv4protoSwitch_eq stage3 second beat tail).symm⟩
  decides stages items free hpacked hitems := by
    obtain ⟨front, behind, hlength⟩ := stages
    match items, behind, hlength with
    | [], _, _ =>
        rcases hitems with rfl | hitems
        · simp [Pipeline.Packed] at hpacked
        · exact absurd hitems not_hasPacket_nil
    | [first], [stage2, stage1, stage0], _ =>
        rcases hitems with rfl | hitems
        · simp [Pipeline.Packed] at hpacked
        · obtain ⟨rfl, -⟩ := List.cons_eq_cons.mp hpacked
          cases hlast : first.last with
          | true => simp [ipv4protoUpdate, hlast]
          | false => exact absurd (hitems.tail hlast) not_hasPacket_nil
    | [first, second], [stage2, stage1, stage0], _ =>
        rcases hitems with rfl | hitems
        · simp [Pipeline.Packed] at hpacked
        · simp only [Pipeline.Packed, List.map_cons, List.cons_append, List.cons.injEq] at hpacked
          obtain ⟨rfl, rfl, -⟩ := hpacked
          cases hfirst : first.last with
          | true => simp [ipv4protoUpdate, hfirst]
          | false =>
              cases hsecond : second.last with
              | true => simp [ipv4protoUpdate, hfirst, hsecond]
              | false => exact absurd ((hitems.tail hfirst).tail hsecond) not_hasPacket_nil
    | first :: second :: third :: _, [stage2, stage1, stage0], _ =>
        simp only [Pipeline.Packed, List.map_cons, List.cons_append, List.cons.injEq] at hpacked
        obtain ⟨rfl, rfl, rfl, -⟩ := hpacked
        by_cases hfirst : first.last <;> by_cases hsecond : second.last <;>
          simp [ipv4protoUpdate, hfirst, hsecond]

/-! ## Runs on packets -/

/-- Whatever the schedule, each port of `rx_split_by_etype` has received a prefix
of the packets routed to it, the beats read are those written and those held, and
rounds without refusals deliver all packets. -/
theorem rxSplitByEtype_routes (stream : List (List Beat))
    (hstream : ∀ packet ∈ stream, IsPacket Beat.last packet) (schedule : List (Call Etype)) :
    let config := run rxSplitByEtype (start Etype 2 stream.flatten) schedule
    (∀ port, config.output port <+:
        (stream.filter fun packet => etypeRoute packet = port).flatten) ∧
      (∃ read, read ++ config.input = stream.flatten ∧
        ∑ port, (config.output port : Multiset Beat) +
          (∑ port, ((config.state.out port).toList : Multiset Beat) +
            config.state.stages.contents) = read) ∧
      ∃ bound, ∀ rounds : List (List (Call Etype)), bound ≤ rounds.length →
        (∀ round ∈ rounds, IsRound config round) →
        (run rxSplitByEtype config rounds.flatten).Drained ∧
          ∀ port, (run rxSplitByEtype config rounds.flatten).output port =
            (stream.filter fun packet => etypeRoute packet = port).flatten :=
  run_routes etypeRouter stream hstream schedule

/-- The packets of the source's testbench. -/
def testPkt : List (List Beat) :=
  [[⟨0xffffffffffff1122#64, 1#8, 1#8, 0#8⟩],
    [⟨0xffffffffffff1122#64, 1#8, 0#8, 0#8⟩,
      ⟨0x3344556608060001#64, 0#8, 0#8, 0#8⟩,
      ⟨0x0800060400011122#64, 0#8, 0#8, 0#8⟩,
      ⟨0x33445566c0a88901#64, 0#8, 0#8, 0#8⟩,
      ⟨0xffffffffffffc0a8#64, 0#8, 0#8, 0#8⟩,
      ⟨0x89c8000000000000#64, 0#8, 0#8, 0#8⟩,
      ⟨0x0000000000000000#64, 0#8, 0#8, 0#8⟩,
      ⟨0x0000000000000000#64, 0#8, 1#8, 4#8⟩],
    [⟨0xffffffffffff1122#64, 1#8, 1#8, 0#8⟩],
    [⟨0xffffffffffff1122#64, 1#8, 1#8, 0#8⟩],
    [⟨0x00005e00016654bf#64, 1#8, 0#8, 0#8⟩,
      ⟨0x648042d808004500#64, 0#8, 0#8, 0#8⟩,
      ⟨0x003c02de00008001#64, 0#8, 0#8, 0#8⟩,
      ⟨0x0000ac1f18873dd3#64, 0#8, 0#8, 0#8⟩,
      ⟨0xe204080030f50001#64, 0#8, 0#8, 0#8⟩,
      ⟨0x1c66616263646566#64, 0#8, 0#8, 0#8⟩,
      ⟨0x6768696a6b6c6d6e#64, 0#8, 0#8, 0#8⟩,
      ⟨0x6f70717273747576#64, 0#8, 0#8, 0#8⟩,
      ⟨0x7761626364656667#64, 0#8, 0#8, 0#8⟩,
      ⟨0x6869000000000000#64, 0#8, 1#8, 6#8⟩]]

theorem rxSplitByEtype_routes_test :
    (∀ packet ∈ testPkt, IsPacket Beat.last packet) ∧
      ∃ bound, ∀ rounds : List (List (Call Etype)), bound ≤ rounds.length →
        (∀ round ∈ rounds, IsRound (start Etype 2 testPkt.flatten) round) →
        (run rxSplitByEtype (start Etype 2 testPkt.flatten) rounds.flatten).Drained ∧
          ∀ port, (run rxSplitByEtype (start Etype 2 testPkt.flatten) rounds.flatten).output port =
            (testPkt.filter fun packet => etypeRoute packet = port).flatten := by
  have hstream : ∀ packet ∈ testPkt, IsPacket Beat.last packet := by decide
  exact ⟨hstream, (rxSplitByEtype_routes testPkt hstream []).2.2⟩

/-- The same for `rx_split_by_ipv4proto`. -/
theorem rxSplitByIpv4proto_routes (stream : List (List Beat))
    (hstream : ∀ packet ∈ stream, IsPacket Beat.last packet) (schedule : List (Call Ipv4Proto)) :
    let config := run rxSplitByIpv4proto (start Ipv4Proto 3 stream.flatten) schedule
    (∀ port, config.output port <+:
        (stream.filter fun packet => ipv4protoRoute packet = port).flatten) ∧
      (∃ read, read ++ config.input = stream.flatten ∧
        ∑ port, (config.output port : Multiset Beat) +
          (∑ port, ((config.state.out port).toList : Multiset Beat) +
            config.state.stages.contents) = read) ∧
      ∃ bound, ∀ rounds : List (List (Call Ipv4Proto)), bound ≤ rounds.length →
        (∀ round ∈ rounds, IsRound config round) →
        (run rxSplitByIpv4proto config rounds.flatten).Drained ∧
          ∀ port, (run rxSplitByIpv4proto config rounds.flatten).output port =
            (stream.filter fun packet => ipv4protoRoute packet = port).flatten :=
  run_routes ipv4protoRouter stream hstream schedule

theorem rxSplitByIpv4proto_routes_test :
    (∀ packet ∈ testPkt, IsPacket Beat.last packet) ∧
      ∃ bound, ∀ rounds : List (List (Call Ipv4Proto)), bound ≤ rounds.length →
        (∀ round ∈ rounds, IsRound (start Ipv4Proto 3 testPkt.flatten) round) →
        (run rxSplitByIpv4proto (start Ipv4Proto 3 testPkt.flatten) rounds.flatten).Drained ∧
          ∀ port, (run rxSplitByIpv4proto (start Ipv4Proto 3 testPkt.flatten)
              rounds.flatten).output port =
            (testPkt.filter fun packet => ipv4protoRoute packet = port).flatten := by
  have hstream : ∀ packet ∈ testPkt, IsPacket Beat.last packet := by decide
  exact ⟨hstream, (rxSplitByIpv4proto_routes testPkt hstream []).2.2⟩

end IcmpServer.RxSplit
