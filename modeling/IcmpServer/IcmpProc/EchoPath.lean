import IcmpServer.IcmpProc.Payload
import IcmpServer.RxSplit.Filters

/-! # From the splitter through the chain

`rx_split_by_ipv4proto` with the ICMP chain behind its ICMP port, as the system
connects them. What the chain emits are the packets with IPv4 protocol 1, in
order, as far as it gets; neither part looks at the ICMP type.
-/

namespace IcmpServer.IcmpProc

open Elastic

/-! ## The packets the chain gets to -/

/-- What the chain makes of packets, up to one that wedges it. -/
def passed : List (List Beat) → List (List Beat)
  | [] => []
  | packet :: rest => if Wedges packet then [echoed packet] else echoed packet :: passed rest

theorem chain_passed {packets : List (List Beat)}
    (hpackets : ∀ packet ∈ packets, IsPacket Beat.last packet) (checksum : BitVec 24) :
    chain checksum packets.flatten = (passed packets).flatten := by
  induction packets generalizing checksum with
  | nil => rfl
  | cons packet rest ih =>
      obtain ⟨next, hnext⟩ := chain_packet (hpackets packet List.mem_cons_self) checksum
      have hrest := ih (fun other hother => hpackets other (List.mem_cons_of_mem _ hother)) next
      rw [List.flatten_cons, hnext, hrest, passed]
      split_ifs <;> simp

/-- Each piece is made of the packet at its position. -/
theorem getElem?_passed {packets : List (List Beat)} {index : Nat} {source : List Beat}
    (hsource : (passed packets)[index]? = some source) :
    ∃ received, packets[index]? = some received ∧ source = echoed received := by
  induction packets generalizing index with
  | nil => simp [passed] at hsource
  | cons packet rest ih =>
      cases index with
      | zero =>
          refine ⟨packet, rfl, ?_⟩
          unfold passed at hsource
          split_ifs at hsource <;> simpa [eq_comm] using hsource
      | succ index =>
          unfold passed at hsource
          split_ifs at hsource
          · simp at hsource
          · exact ih hsource

/-- The markers stay where they are as far as the chain gets. -/
theorem map_markers_echoed (packet : List Beat) :
    (echoed packet).map markers <+: packet.map markers := by
  induction packet using echoed.induct with
  | case1 packet hone =>
      rw [echoed, if_pos hone]
      exact List.nil_prefix
  | case2 packet hone hfour =>
      rw [echoed, if_neg hone, if_pos hfour, List.map_take, map_markers_macPacket]
      exact List.take_prefix 3 _
  | case3 packet hone hfour hlength =>
      rw [echoed, if_neg hone, if_neg hfour, if_pos hlength, map_markers_echoPacket]
  | case4 packet hone hfour hlength ih =>
      rw [List.map_drop] at ih
      have hback := (List.prefix_append_right_inj ((packet.map markers).take 256)).mpr ih
      rw [List.take_append_drop] at hback
      rwa [echoed, if_neg hone, if_neg hfour, if_neg hlength, List.map_append,
        map_markers_echoPacket, List.map_take]

/-- A packet that passes the chain has the same markers all along. -/
theorem map_markers_of_passes {packet : List Beat} (hpasses : ¬ Wedges packet) :
    (echoed packet).map markers = packet.map markers := by
  apply (map_markers_echoed packet).eq_of_length
  rw [List.length_map, List.length_map, length_echoed_of_passes hpasses]

theorem map_last_echoed (packet : List Beat) :
    (echoed packet).map Beat.last <+: packet.map Beat.last := by
  rw [last_eq_markers, ← List.map_map, ← List.map_map]
  exact (map_markers_echoed packet).map _

theorem echoed_isPacket {packet : List Beat} (hpacket : IsPacket Beat.last packet)
    (hpasses : ¬ Wedges packet) : IsPacket Beat.last (echoed packet) :=
  hpacket.of_map_eq (map_last_of_markers (map_markers_of_passes hpasses))

/-- Only the piece of a wedging packet has no end. -/
theorem passed_cutShort {packets : List (List Beat)}
    (hpackets : ∀ packet ∈ packets, IsPacket Beat.last packet) :
    CutShort Beat.last (passed packets) := by
  induction packets with
  | nil => exact .nil
  | cons packet rest ih =>
      have hpacket := hpackets packet List.mem_cons_self
      have hmarks := map_last_echoed packet
      unfold passed
      split_ifs with hwedges
      · apply CutShort.short
        intro beat hbeat
        have hless := length_echoed_of_wedges hwedges
        have hmore := (hpacket.cut hless).1
        rw [List.prefix_iff_eq_take, List.length_map, ← List.map_take] at hmarks
        obtain ⟨other, hother, hsame⟩ :=
          List.mem_map.mp (hmarks ▸ List.mem_map_of_mem (f := Beat.last) hbeat)
        rw [← hsame, hmore other hother]
      · exact .cons (echoed_isPacket hpacket hwedges)
          (ih fun other hother => hpackets other (List.mem_cons_of_mem _ hother))

/-! ## The ICMP type -/

/-- The type byte of what the chain makes of a packet is that of an echo reply. -/
theorem packetByte_echoed_type {packet : List Beat} (hlength : 5 ≤ packet.length) :
    packetByte (echoed packet) 34 = 0#8 := by
  obtain ⟨later, hlater⟩ := echoed_of_long hlength
  have hfront : 5 ≤ (packet.take 256).length := by
    rw [List.length_take]
    omega
  have hinside : 34 / 8 < (echoPacket (packet.take 256)).length := by
    rw [length_echoPacket]
    omega
  rw [hlater, ← packetByte_of_isPrefix (List.prefix_append _ _) hinside, echoPacket,
    components_reply hfront, packetByte_reply (by omega)]
  rfl

/-- The splitter's test of the third beat is a test of the protocol byte. -/
theorem packetByte_icmp {packet : List Beat}
    (hroute : RxSplit.ipv4protoRoute packet = RxSplit.Ipv4Proto.icmp) :
    packetByte packet 23 = 1#8 := by
  unfold RxSplit.ipv4protoRoute at hroute
  split at hroute
  next third _ =>
    split_ifs at hroute with hbyte
    rw [← hbyte, BitVec.setWidth_eq_extractLsb' (by decide)]
    rfl
  next => exact absurd hroute (by decide)

/-! ## The two parts in a row -/

/-- The splitter with all it has written, and the chain with what it has not read
of the ICMP port. -/
structure PathConfig where
  splitter : RxSplit.Config RxSplit.Ipv4Proto 3
  chain : icmpProc.Config

/-- A call of the splitter or of a component of the chain. -/
inductive PathCall
  | split (call : RxSplit.Call RxSplit.Ipv4Proto)
  | chain (call : Call (((Unit ⊕ Unit) ⊕ Unit) ⊕ Unit))

def pathStart (input : List Beat) : PathConfig :=
  ⟨RxSplit.start RxSplit.Ipv4Proto 3 input, icmpProc.start []⟩

/-- What a call of the splitter writes to its ICMP port is there for the chain to
read. -/
def pathStep (config : PathConfig) : PathCall → PathConfig
  | .split call =>
      let splitter := RxSplit.step RxSplit.rxSplitByIpv4proto config.splitter call
      let sent := (splitter.output .icmp).drop (config.splitter.output .icmp).length
      ⟨splitter, { config.chain with input := config.chain.input ++ sent }⟩
  | .chain call => { config with chain := icmpProc.step config.chain call }

def pathRun (config : PathConfig) (schedule : List PathCall) : PathConfig :=
  schedule.foldl pathStep config

/-- The chain's account, for whatever the splitter sends later on. -/
structure PathAccounted (input : List Beat) (config : PathConfig) : Prop where
  splitter : RxSplit.Accounted RxSplit.ipv4protoRouter input config.splitter
  inv : icmpProcAccount.inv config.chain.state
  written : ∀ later, config.chain.output ++
    icmpProcAccount.future config.chain.state (config.chain.input ++ later) =
      icmpProcAccount.computes (config.splitter.output .icmp ++ later)

theorem pathStart_accounted (input : List Beat) : PathAccounted input (pathStart input) where
  splitter := RxSplit.start_accounted RxSplit.ipv4protoRouter input
  inv := icmpProcAccount.inv_init
  written _ := rfl

theorem pathStep_accounted {input : List Beat} (config : PathConfig) (call : PathCall)
    (hconfig : PathAccounted input config) : PathAccounted input (pathStep config call) := by
  cases call with
  | split call =>
      refine ⟨RxSplit.step_accounted config.splitter call hconfig.splitter, hconfig.inv, ?_⟩
      intro later
      have hgrows : config.splitter.output .icmp <+:
          (RxSplit.step RxSplit.rxSplitByIpv4proto config.splitter call).output .icmp :=
        (⟨config.splitter.output .icmp, call.accept .icmp⟩ : StreamOut Beat).flush_isPrefix
          (config.splitter.state.out .icmp)
      obtain ⟨sent, hsent⟩ := hgrows
      have hwritten := hconfig.written (sent ++ later)
      simp only [pathStep, ← hsent, List.drop_left, List.append_assoc]
      exact hwritten
  | chain call =>
      refine ⟨hconfig.splitter, icmpProcAccount.inv_call _ _ _ _ hconfig.inv, ?_⟩
      intro later
      rw [pathStep, ← hconfig.written later]
      exact icmpProcAccount.conserve call.part config.chain.state
        ⟨config.chain.input, call.deliver⟩ ⟨config.chain.output, call.accept⟩ later hconfig.inv

theorem pathRun_accounted {input : List Beat} (schedule : List PathCall) (config : PathConfig)
    (hconfig : PathAccounted input config) : PathAccounted input (pathRun config schedule) :=
  foldl_invariant (fun config call => pathStep_accounted config call) schedule config hconfig

/-- The packets the splitter sends to its ICMP port. -/
def icmpPackets (stream : List (List Beat)) : List (List Beat) :=
  stream.filter fun packet => RxSplit.ipv4protoRoute packet = .icmp

section Accounted

variable {stream : List (List Beat)} (hstream : ∀ packet ∈ stream, IsPacket Beat.last packet)
  {config : PathConfig} (hconfig : PathAccounted stream.flatten config)
include hstream

theorem icmpPackets_isPacket : ∀ packet ∈ icmpPackets stream, IsPacket Beat.last packet :=
  fun packet hmem => hstream packet (List.mem_filter.mp hmem).1

include hconfig

/-- Whatever the splitter sends later on, the chain has written a part of what it
computes from the ICMP packets of the stream. -/
theorem PathAccounted.output_isPrefix :
    config.chain.output <+: (passed (icmpPackets stream)).flatten := by
  obtain ⟨later, hlater⟩ := hconfig.splitter.output_isPrefix .icmp
  have hwritten := hconfig.written later
  rw [hlater, packets_flatten stream hstream] at hwritten
  rw [← chain_passed (icmpPackets_isPacket hstream) 0#24, ← icmpProcAccount_computes]
  exact ⟨_, hwritten⟩

/-- Once the splitter has nothing left the chain is on its own. -/
theorem PathAccounted.chain_accounted (hdrained : config.splitter.Drained) :
    icmpProcAccount.Accounted (passed (icmpPackets stream)).flatten config.chain := by
  have hsent := hconfig.splitter.output_eq hdrained .icmp
  have hwritten := hconfig.written []
  rw [List.append_nil, List.append_nil, hsent, packets_flatten stream hstream] at hwritten
  rw [← chain_passed (icmpPackets_isPacket hstream) 0#24, ← icmpProcAccount_computes]
  exact ⟨hconfig.inv, hwritten⟩

end Accounted

/-- Under every schedule the chain has written a part of what it computes from the
ICMP packets of the stream. -/
theorem path_output_isPrefix (stream : List (List Beat))
    (hstream : ∀ packet ∈ stream, IsPacket Beat.last packet) (schedule : List PathCall) :
    (pathRun (pathStart stream.flatten) schedule).chain.output <+:
      (passed (icmpPackets stream)).flatten :=
  (pathRun_accounted schedule _ (pathStart_accounted stream.flatten)).output_isPrefix hstream

/-! ## Everything comes out -/

/-- A call of the splitter and of each component, served and not refused. -/
def IsPathRound (round : List PathCall) : Prop :=
  PathCall.split ⟨true, fun _ => true⟩ ∈ round ∧ ∀ part, PathCall.chain ⟨part, true, true⟩ ∈ round

/-- Moves still possible: what a move of the splitter sends has the whole chain in front
of it. -/
def PathConfig.remaining (config : PathConfig) : Nat :=
  (icmpProcAccount.depth + 1) * config.splitter.remaining +
    icmpProcAccount.remaining config.chain

/-- A call of the splitter writes at most one beat to a port. -/
theorem length_drop_output_le (config : RxSplit.Config RxSplit.Ipv4Proto 3)
    (call : RxSplit.Call RxSplit.Ipv4Proto) (port : RxSplit.Ipv4Proto) :
    (((RxSplit.step RxSplit.rxSplitByIpv4proto config call).output port).drop
      (config.output port).length).length ≤ 1 := by
  have hcount := (⟨config.output port, call.accept port⟩ : StreamOut Beat).flush_count
    (config.state.out port)
  have hheld : occupied (config.state.out port) ≤ 1 := by
    cases config.state.out port <;> simp
  rw [List.length_drop]
  change (config.flushed call port).2.written.length - _ ≤ 1
  simp only [RxSplit.Config.flushed] at hcount ⊢
  omega

theorem pathStep_idle_or_lt {config : PathConfig}
    (hinv : icmpProcAccount.inv config.chain.state) (call : PathCall) :
    pathStep config call = config ∨ (pathStep config call).remaining < config.remaining := by
  cases call with
  | split call =>
      have hmoves : RxSplit.step RxSplit.rxSplitByIpv4proto config.splitter call =
            config.splitter ∨
          (RxSplit.step RxSplit.rxSplitByIpv4proto config.splitter call).remaining <
            config.splitter.remaining :=
        RxSplit.step_idle_or_lt RxSplit.ipv4protoUpdate config.splitter call
      rcases hmoves with hidle | hless
      · left
        simp [pathStep, hidle]
      · right
        have hsent := Nat.mul_le_mul_left icmpProcAccount.depth
          (length_drop_output_le config.splitter call .icmp)
        have hsplitter := Nat.mul_le_mul_left (icmpProcAccount.depth + 1) hless
        rw [Nat.mul_succ] at hsplitter
        simp only [PathConfig.remaining, Account.remaining, pathStep, List.length_append,
          Nat.mul_add]
        omega
  | chain call =>
      apply (icmpProcAccount.step_idle_or_lt config.chain call hinv).imp
      · intro hidle
        rw [pathStep, hidle]
      · exact fun hless => Nat.add_lt_add_left hless _

section Complete

variable {stream : List (List Beat)} (hstream : ∀ packet ∈ stream, IsPacket Beat.last packet)
include hstream

/-- A complete output stays complete. -/
theorem pathStep_complete (config : PathConfig) (call : PathCall)
    (hconfig : PathAccounted stream.flatten config)
    (hdone : config.chain.output = (passed (icmpPackets stream)).flatten) :
    (pathStep config call).chain.output = (passed (icmpPackets stream)).flatten := by
  have hnext := (pathStep_accounted config call hconfig).output_isPrefix hstream
  cases call with
  | split call => exact hdone
  | chain call =>
      have hgrows := icmpProcAccount.grows call.part config.chain.state
        ⟨config.chain.input, call.deliver⟩ ⟨config.chain.output, call.accept⟩ hconfig.inv
      exact hnext.eq_of_length (Nat.le_antisymm hnext.length_le (hdone ▸ hgrows.length_le))

/-- While something remains to be written, a call of every round moves something: the
splitter has beats left, or the chain has them all. -/
theorem pathRound_moves (config : PathConfig) (round : List PathCall)
    (hconfig : PathAccounted stream.flatten config)
    (hopen : config.chain.output ≠ (passed (icmpPackets stream)).flatten)
    (hround : IsPathRound round) : ∃ call ∈ round, pathStep config call ≠ config := by
  by_cases hdrained : config.splitter.Drained
  · obtain ⟨part, hmoves⟩ := icmpProcAccount.exists_moves isRound_icmpProc config.chain
      (hconfig.chain_accounted hstream hdrained) hopen
    exact ⟨_, hround.2 part, fun hidle => hmoves (congrArg PathConfig.chain hidle)⟩
  · have hframed := hconfig.splitter.framed (Framed.flatten stream hstream)
    have hmoves : RxSplit.step RxSplit.rxSplitByIpv4proto config.splitter ⟨true, fun _ => true⟩ ≠
        config.splitter :=
      @RxSplit.step_moves _ _ _ RxSplit.ipv4protoRouter config.splitter _ hframed (fun _ => rfl)
        (Or.inl rfl) hdrained
    exact ⟨_, hround.1, fun hidle => hmoves (congrArg PathConfig.splitter hidle)⟩

/-- From every configuration reached finitely many rounds write all that the chain makes
of the ICMP packets. -/
theorem path_output_complete (schedule : List PathCall) :
    ∃ bound, ∀ rounds : List (List PathCall), bound ≤ rounds.length →
      (∀ round ∈ rounds, IsPathRound round) →
      (pathRun (pathRun (pathStart stream.flatten) schedule) rounds.flatten).chain.output =
        (passed (icmpPackets stream)).flatten := by
  have hreached := pathRun_accounted schedule _ (pathStart_accounted stream.flatten)
  refine ⟨(pathRun (pathStart stream.flatten) schedule).remaining + 1, ?_⟩
  intro rounds hlength hrounds
  exact rounds_reach pathStep (PathAccounted stream.flatten)
    (fun config => config.chain.output = (passed (icmpPackets stream)).flatten)
    PathConfig.remaining IsPathRound
    (fun config call => pathStep_accounted config call)
    (fun config call hconfig => pathStep_idle_or_lt hconfig.inv call)
    (fun config call => pathStep_complete hstream config call)
    (fun config round => pathRound_moves hstream config round)
    rounds hrounds _ hreached hlength

end Complete

/-- With no wedging packet in front, a packet that does not wedge is passed on. -/
theorem getElem?_passed_of_passes {packets : List (List Beat)} {index : Nat}
    {received : List Beat} (hreceived : packets[index]? = some received)
    (hpasses : ∀ packet ∈ packets.take (index + 1), ¬ Wedges packet) :
    (passed packets)[index]? = some (echoed received) := by
  induction packets generalizing index with
  | nil => simp at hreceived
  | cons packet rest ih =>
      rw [passed, if_neg (hpasses packet (by simp))]
      cases index with
      | zero => simpa using congrArg (Option.map echoed) hreceived
      | succ index =>
          exact ih hreceived fun other hother => hpasses other (List.mem_cons_of_mem _ hother)

/-- Every packet the chain emits, whole or as far as it has come out, is made of the
ICMP packet at the same place in the stream, and has the type of an echo reply
whatever the type of that packet is. In the end every ICMP packet comes back so,
unless it or one in front of it wedges the chain. -/
theorem path_emits (stream : List (List Beat))
    (hstream : ∀ packet ∈ stream, IsPacket Beat.last packet) (schedule : List PathCall) :
    (∀ (index : Nat) (emitted : List Beat), (packets Beat.last
        (pathRun (pathStart stream.flatten) schedule).chain.output)[index]? = some emitted →
      ∃ received, (icmpPackets stream)[index]? = some received ∧
        packetByte received 23 = 1#8 ∧ emitted <+: echoed received ∧
        (IsPacket Beat.last emitted → emitted.length = received.length) ∧
        (5 ≤ emitted.length → packetByte emitted 34 = 0#8)) ∧
      ∃ bound, ∀ rounds : List (List PathCall), bound ≤ rounds.length →
        (∀ round ∈ rounds, IsPathRound round) →
        ∀ (index : Nat) (received : List Beat), (icmpPackets stream)[index]? = some received →
          (∀ packet ∈ (icmpPackets stream).take (index + 1), ¬ Wedges packet) →
          ∃ emitted, (packets Beat.last (pathRun (pathRun (pathStart stream.flatten) schedule)
              rounds.flatten).chain.output)[index]? = some emitted ∧
            emitted = echoed received ∧ IsPacket Beat.last emitted ∧
            emitted.length = received.length ∧
            (5 ≤ received.length → packetByte emitted 34 = 0#8) := by
  have hicmp := icmpPackets_isPacket hstream
  refine ⟨fun index emitted hemitted => ?_, ?_⟩
  · obtain ⟨source, hsource, hinitial⟩ := (passed_cutShort hicmp).getElem?_packets
      (path_output_isPrefix stream hstream schedule) hemitted
    obtain ⟨received, hreceived, rfl⟩ := getElem?_passed hsource
    have hmem := List.mem_of_getElem? hreceived
    refine ⟨received, hreceived, ?_, hinitial, ?_, ?_⟩
    · exact packetByte_icmp (of_decide_eq_true (List.mem_filter.mp hmem).2)
    · intro hwhole
      exact hwhole.length_eq_of_isPrefix (hicmp received hmem)
        ((hinitial.map Beat.last).trans (map_last_echoed received))
    · intro hlength
      have hlong := hinitial.length_le
      have hreceivedLength := length_echoed received
      rw [packetByte_of_isPrefix hinitial (by omega), packetByte_echoed_type (by omega)]
  · obtain ⟨bound, hcomplete⟩ := path_output_complete hstream schedule
    refine ⟨bound, fun rounds hbound hrounds index received hreceived hpasses => ?_⟩
    have hsource := getElem?_passed_of_passes hreceived hpasses
    have hreceivedPasses := hpasses received
      (List.mem_of_getElem? ((List.getElem?_take_of_lt (Nat.lt_succ_self index)).trans hreceived))
    have hwhole := echoed_isPacket (hicmp received (List.mem_of_getElem? hreceived)) hreceivedPasses
    refine ⟨echoed received, ?_, rfl, hwhole, length_echoed_of_passes hreceivedPasses,
      packetByte_echoed_type⟩
    rw [hcomplete rounds hbound hrounds]
    exact (passed_cutShort hicmp).getElem?_packets_flatten hwhole hsource

/-- An echo reply as the receive MAC delivers it, padded to 60 bytes. -/
def testEchoReply : List Beat :=
  [⟨0x00005e00016654bf#64, 1#8, 0#8, 0#8⟩,
    ⟨0x648042d808004500#64, 0#8, 0#8, 0#8⟩,
    ⟨0x001c02de00008001#64, 0#8, 0#8, 0#8⟩,
    ⟨0x0000ac1f18873dd3#64, 0#8, 0#8, 0#8⟩,
    ⟨0xe2040000fffe0001#64, 0#8, 0#8, 0#8⟩,
    ⟨0x0000000000000000#64, 0#8, 0#8, 0#8⟩,
    ⟨0x0000000000000000#64, 0#8, 0#8, 0#8⟩,
    ⟨0x0000000000000000#64, 0#8, 1#8, 4#8⟩]

/-- The splitter and the components in turn, nothing refused. -/
def testPathSchedule : List PathCall :=
  (List.replicate 30
    [PathCall.split ⟨true, fun _ => true⟩,
      .chain ⟨.inl (.inl (.inl ())), true, true⟩, .chain ⟨.inl (.inl (.inr ())), true, true⟩,
      .chain ⟨.inl (.inr ()), true, true⟩, .chain ⟨.inr (), true, true⟩]).flatten

/-- It comes back under this schedule and after enough rounds of any other. -/
theorem path_emits_test :
    let output := (pathRun (pathStart [testEchoReply].flatten) testPathSchedule).chain.output
    (∀ packet ∈ [testEchoReply], IsPacket Beat.last packet) ∧
      (packets Beat.last output)[0]? = some output ∧
      (∃ received, (icmpPackets [testEchoReply])[0]? = some received ∧
        packetByte received 23 = 1#8 ∧ output <+: echoed received ∧
        output.length = received.length ∧ packetByte output 34 = 0#8) ∧
      ∃ bound, ∀ rounds : List (List PathCall), bound ≤ rounds.length →
        (∀ round ∈ rounds, IsPathRound round) →
        ∃ emitted, (packets Beat.last (pathRun (pathRun (pathStart [testEchoReply].flatten) [])
            rounds.flatten).chain.output)[0]? = some emitted ∧
          emitted = echoed testEchoReply ∧ IsPacket Beat.last emitted ∧ emitted.length = 8 ∧
          packetByte emitted 34 = 0#8 := by
  have hstream : ∀ packet ∈ [testEchoReply], IsPacket Beat.last packet := by decide
  have hemitted : (packets Beat.last (pathRun (pathStart [testEchoReply].flatten)
      testPathSchedule).chain.output)[0]? = some (pathRun (pathStart [testEchoReply].flatten)
        testPathSchedule).chain.output := by
    decide +kernel
  refine ⟨hstream, hemitted, ?_, ?_⟩
  · obtain ⟨received, hreceived, hproto, hinitial, hlength, htype⟩ :=
      (path_emits [testEchoReply] hstream testPathSchedule).1 0 _ hemitted
    exact ⟨received, hreceived, hproto, hinitial, hlength (by decide +kernel),
      htype (by decide +kernel)⟩
  · have hreceived : (icmpPackets [testEchoReply])[0]? = some testEchoReply := by decide
    have hpasses : ∀ packet ∈ (icmpPackets [testEchoReply]).take 1, ¬ Wedges packet := by decide
    obtain ⟨bound, hbound⟩ := (path_emits [testEchoReply] hstream []).2
    refine ⟨bound, fun rounds henough hrounds => ?_⟩
    obtain ⟨emitted, hplace, hecho, hwhole, hlength, htype⟩ :=
      hbound rounds henough hrounds 0 testEchoReply hreceived hpasses
    exact ⟨emitted, hplace, hecho, hwhole, hlength, htype (by decide)⟩

/-- An echo reply is sent back as an echo reply. -/
theorem path_emits_testEchoReply :
    (∀ packet ∈ [testEchoReply], IsPacket Beat.last packet ∧ packetByte packet 34 = 0#8) ∧
      IsPacket Beat.last
        (pathRun (pathStart [testEchoReply].flatten) testPathSchedule).chain.output ∧
      packetByte (pathRun (pathStart [testEchoReply].flatten)
        testPathSchedule).chain.output 34 = 0#8 := by
  decide +kernel

end IcmpServer.IcmpProc
