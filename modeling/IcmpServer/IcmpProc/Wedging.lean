import IcmpServer.IcmpProc.Chain

/-! # Packets of any length in the chain

The 8-bit counters wrap behind 256 beats, so the chain takes a packet for a row
of stretches of 256 beats with a shorter one at its end. Each stretch is dealt
with like a packet of its own. A final stretch of one beat is held for ever by
`icmp_proc_swapmac`, one of four beats by `icmp_proc_swapip`.
-/

namespace IcmpServer.IcmpProc

open Elastic

/-- The final stretch ends at an index that is held back. -/
def Wedges (packet : List Beat) : Prop :=
  packet.length % 256 = 1 ∨ packet.length % 256 = 4

instance : DecidablePred Wedges :=
  fun packet => inferInstanceAs (Decidable (packet.length % 256 = 1 ∨ packet.length % 256 = 4))

/-- What the chain writes for a packet, wedged by it or not. -/
def echoed (packet : List Beat) : List Beat :=
  if packet.length = 1 then []
  else if packet.length = 4 then (macPacket packet).take 3
  else if packet.length ≤ 256 then echoPacket packet
  else echoPacket (packet.take 256) ++ echoed (packet.drop 256)
termination_by packet.length
decreasing_by
  rw [List.length_drop]
  omega

/-! ## Stretches that are held back -/

/-- A single beat waits for a partner that never comes: behind it the counter
starts over. -/
theorem macField_single {beat : Beat} (hlast : beat.last = true) (rest : List Beat) :
    macField.rewrite (indexed 0#8 (beat :: rest)) = [] := by
  have hpartner : 0#8 ≠ macField.partner := by decide
  have hnext : nextIdx 0#8 beat = 0#8 := by simp [nextIdx, hlast]
  cases rest with
  | nil => exact macField.rewrite_wait _ rfl
  | cons second rest =>
      rw [indexed, indexed, hnext]
      exact macField.rewrite_stuck _ _ _ rfl hpartner

/-- Beat 3 at the end of a packet waits for a beat 4 that never comes. -/
theorem ipField_three {front : List Beat} (hmore : ∀ beat ∈ front, beat.last = false)
    (hlength : front.length = 3) {beat : Beat} (hlast : beat.last = true) (rest : List Beat) :
    ipField.rewrite (indexed 0#8 (front ++ beat :: rest)) = front := by
  have hheld : ∀ held ∈ numbered 0 front, held.idx ≠ ipField.held :=
    numbered_idx_ne (Or.inr (by simp [hlength, ipField])) (by omega)
  have hpartner : 0#8 ≠ ipField.partner := by decide
  have hnext : nextIdx 3#8 beat = 0#8 := by simp [nextIdx, hlast]
  have hwait : ipField.rewrite (indexed 3#8 (beat :: rest)) = [] := by
    cases rest with
    | nil => exact ipField.rewrite_wait _ rfl
    | cons second rest =>
        rw [indexed, indexed, hnext]
        exact ipField.rewrite_stuck _ _ _ rfl hpartner
  have hfront := indexed_more hmore 0 (beat :: rest)
  rw [hlength] at hfront
  rw [hfront, ipField.rewrite_numbered hheld, numbered_map_beat, hwait, List.append_nil]

/-- Three beats without `eop` go through `icmp_proc_param` and
`icmp_proc_ipv4chksum` unchanged. -/
theorem chksum_three {front : List Beat} (hmore : ∀ beat ∈ front, beat.last = false)
    (hlength : front.length = 3) (checksum : BitVec 24) :
    chksumRewrite none checksum (indexed 0#8 ((indexed 0#8 front).map paramRewrite)) = front := by
  have hnumbered : indexed 0#8 front = numbered 0 front := by
    simpa [indexed] using indexed_more hmore 0 []
  have hparam : ∀ held ∈ numbered 0 front, held.idx ≠ 4#8 :=
    numbered_idx_ne (Or.inr (by simp [hlength])) (by omega)
  have hchksum : ∀ held ∈ numbered 0 front, held.idx ≠ 3#8 :=
    numbered_idx_ne (Or.inr (by simp [hlength])) (by omega)
  rw [hnumbered, map_paramRewrite_numbered hparam, numbered_map_beat, hnumbered,
    ← List.append_nil (numbered 0 front), chksumRewrite_numbered hchksum, numbered_map_beat]
  exact List.append_nil front

section Held

variable {packet : List Beat} (hpacket : IsPacket Beat.last packet)
include hpacket

theorem chain_one (hlength : packet.length = 1) (checksum : BitVec 24) (rest : List Beat) :
    chain checksum (packet ++ rest) = [] := by
  obtain ⟨beat, rfl⟩ := List.length_eq_one_iff.mp hlength
  cases hpacket with
  | final hlast =>
      rw [chain, List.singleton_append, macField_single hlast]
      rfl
  | more _ hnil => exact absurd rfl hnil.ne_nil

theorem chain_four (hlength : packet.length = 4) (checksum : BitVec 24) (rest : List Beat) :
    chain checksum (packet ++ rest) = (macPacket packet).take 3 := by
  have hmarkers := map_markers_macPacket packet
  have hmac := hpacket.of_map_eq (map_last_of_markers hmarkers)
  have hmacLength : (macPacket packet).length = 4 := by
    rw [← List.length_map (f := markers), hmarkers, List.length_map, hlength]
  have hstretch : Stretch packet := Or.inl ⟨hpacket, by omega⟩
  have hthree : 3 < (macPacket packet).length := by omega
  obtain ⟨hmore, hback⟩ := hmac.cut hthree
  have hfront : ((macPacket packet).take 3).length = 3 := by
    rw [List.length_take]
    omega
  have hsingle : ((macPacket packet).drop 3).length = 1 := by
    rw [List.length_drop]
    omega
  obtain ⟨beat, hbeat⟩ := List.length_eq_one_iff.mp hsingle
  have hlast : beat.last = true := by
    rw [hbeat] at hback
    cases hback with
    | final hlast => exact hlast
    | more _ hnil => exact absurd rfl hnil.ne_nil
  have hcut : macPacket packet = (macPacket packet).take 3 ++ [beat] := by
    rw [← hbeat, List.take_append_drop]
  rw [chain, macField_stretch hstretch (by omega)]
  generalize macField.rewrite (indexed 0#8 rest) = later
  rw [hcut, List.append_assoc, List.singleton_append, ipField_three hmore hfront hlast,
    chksum_three hmore hfront, ← hcut]

/-- A wedging packet is the last of which anything is written. -/
theorem chain_packet (checksum : BitVec 24) :
    ∃ next, ∀ rest, chain checksum (packet ++ rest) =
      echoed packet ++ if Wedges packet then [] else chain next rest := by
  induction packet using echoed.induct generalizing checksum with
  | case1 packet hone =>
      have hwedges : Wedges packet := Or.inl (by omega)
      refine ⟨0#24, ?_⟩
      intro rest
      rw [chain_one hpacket hone, echoed, if_pos hone, if_pos hwedges]
      rfl
  | case2 packet hone hfour =>
      have hwedges : Wedges packet := Or.inr (by omega)
      refine ⟨0#24, ?_⟩
      intro rest
      rw [chain_four hpacket hfour, echoed, if_neg hone, if_pos hfour, if_pos hwedges,
        List.append_nil]
  | case3 packet hone hfour hlength =>
      have hpasses : ¬ Wedges packet := by
        unfold Wedges
        omega
      obtain ⟨next, hnext⟩ := chain_stretch (Or.inl ⟨hpacket, hlength⟩) hone hfour checksum
      refine ⟨next, ?_⟩
      intro rest
      rw [hnext, echoed, if_neg hone, if_neg hfour, if_pos hlength, if_neg hpasses]
  | case4 packet hone hfour hlength ih =>
      have hlong : 256 < packet.length := by omega
      obtain ⟨hmore, hback⟩ := hpacket.cut hlong
      have hfront : (packet.take 256).length = 256 := by
        rw [List.length_take]
        omega
      have hwedges : Wedges (packet.drop 256) ↔ Wedges packet := by
        simp only [Wedges, List.length_drop]
        omega
      obtain ⟨between, hbetween⟩ :=
        chain_stretch (Or.inr ⟨hmore, hfront⟩) (by omega) (by omega) checksum
      obtain ⟨next, hnext⟩ := ih hback between
      refine ⟨next, ?_⟩
      intro rest
      rw [← List.take_append_drop 256 packet, List.append_assoc, hbetween, hnext,
        List.take_append_drop, echoed.eq_1 packet, if_neg hone, if_neg hfour, if_neg hlength,
        List.append_assoc]
      simp only [hwedges]

end Held

/-! ## Nothing gets past a wedging packet -/

@[simp] theorem length_macPacket (packet : List Beat) :
    (macPacket packet).length = packet.length := by
  simpa using congrArg List.length (map_markers_macPacket packet)

/-- One beat of a wedging packet is held back for ever, and none of another. -/
theorem length_echoed (packet : List Beat) :
    (echoed packet).length + (if Wedges packet then 1 else 0) = packet.length := by
  induction packet using echoed.induct with
  | case1 packet hone =>
      have hwedges : Wedges packet := Or.inl (by omega)
      rw [echoed, if_pos hone, if_pos hwedges, hone]
      rfl
  | case2 packet hone hfour =>
      have hwedges : Wedges packet := Or.inr (by omega)
      rw [echoed, if_neg hone, if_pos hfour, if_pos hwedges, List.length_take, length_macPacket]
      omega
  | case3 packet hone hfour hlength =>
      have hpasses : ¬ Wedges packet := by
        unfold Wedges
        omega
      rw [echoed, if_neg hone, if_neg hfour, if_pos hlength, if_neg hpasses, length_echoPacket]
      rfl
  | case4 packet hone hfour hlength ih =>
      have hwedges : Wedges (packet.drop 256) ↔ Wedges packet := by
        simp only [Wedges, List.length_drop]
        omega
      rw [echoed, if_neg hone, if_neg hfour, if_neg hlength, List.length_append,
        length_echoPacket, List.length_take]
      simp only [hwedges, List.length_drop] at ih
      omega

theorem length_echoed_of_wedges {packet : List Beat} (hwedges : Wedges packet) :
    (echoed packet).length < packet.length := by
  have hlength := length_echoed packet
  rw [if_pos hwedges] at hlength
  omega

theorem length_echoed_of_passes {packet : List Beat} (hpasses : ¬ Wedges packet) :
    (echoed packet).length = packet.length := by
  have hlength := length_echoed packet
  rwa [if_neg hpasses] at hlength

/-- Packets in front are passed on whole, or one of them wedges the chain and
what follows them makes no difference. -/
theorem chain_packets (packets : List (List Beat))
    (hpackets : ∀ packet ∈ packets, IsPacket Beat.last packet) (checksum : BitVec 24) :
    ((∀ packet ∈ packets, ¬ Wedges packet) ∧
        ∃ next, ∀ rest, chain checksum (packets.flatten ++ rest) =
          (packets.map echoed).flatten ++ chain next rest) ∨
      ((∃ packet ∈ packets, Wedges packet) ∧
        ∀ rest, (chain checksum (packets.flatten ++ rest)).length < packets.flatten.length) := by
  induction packets generalizing checksum with
  | nil => exact Or.inl ⟨by simp, checksum, fun _ => rfl⟩
  | cons packet packets ih =>
      obtain ⟨next, hnext⟩ := chain_packet (hpackets packet List.mem_cons_self) checksum
      have hlater := ih (fun other hother => hpackets other (List.mem_cons_of_mem _ hother)) next
      simp only [List.flatten_cons, List.append_assoc, hnext, List.length_append, List.map_cons]
      by_cases hwedges : Wedges packet
      · right
        refine ⟨⟨packet, List.mem_cons_self, hwedges⟩, ?_⟩
        intro rest
        have hless := length_echoed_of_wedges hwedges
        rw [if_pos hwedges, List.length_nil]
        omega
      · simp only [if_neg hwedges, length_echoed_of_passes hwedges]
        refine hlater.imp ?_ ?_
        · rintro ⟨hpasses, last, hlast⟩
          refine ⟨by simpa [hwedges] using hpasses, last, ?_⟩
          intro rest
          rw [hlast]
        · rintro ⟨⟨other, hother, hother'⟩, hless⟩
          refine ⟨⟨other, List.mem_cons_of_mem _ hother, hother'⟩, ?_⟩
          intro rest
          have hshort := hless rest
          omega

theorem length_flatten_echoed {packets : List (List Beat)}
    (hpasses : ∀ packet ∈ packets, ¬ Wedges packet) :
    (packets.map echoed).flatten.length = packets.flatten.length :=
  length_flatten_map fun packet hmem => length_echoed_of_passes (hpasses packet hmem)

/-- The chain computes as many beats as it is offered, unless it gets wedged. -/
theorem length_chain_packets {packets : List (List Beat)}
    (hpackets : ∀ packet ∈ packets, IsPacket Beat.last packet) :
    (icmpProcAccount.computes packets.flatten).length = packets.flatten.length ↔
      ∀ packet ∈ packets, ¬ Wedges packet := by
  rw [icmpProcAccount_computes, ← List.append_nil packets.flatten]
  rcases chain_packets packets hpackets 0#24 with
    ⟨hpasses, next, hnext⟩ | ⟨⟨packet, hmem, hwedges⟩, hless⟩
  · have hwhole : (chain 0#24 (packets.flatten ++ [])).length =
        (packets.flatten ++ []).length := by
      rw [hnext, List.length_append, List.length_append, length_flatten_echoed hpasses]
      rfl
    exact iff_of_true hwhole hpasses
  · have hshort := hless []
    refine iff_of_false ?_ fun hpasses => hpasses packet hmem hwedges
    rw [List.length_append, List.length_nil]
    omega

/-- A call of each component, served and accepted. -/
theorem isRound_icmpProc :
    IsRound ([.inl (.inl (.inl ())), .inl (.inl (.inr ())), .inl (.inr ()), .inr ()].map
      fun part : ((Unit ⊕ Unit) ⊕ Unit) ⊕ Unit => ⟨part, true, true⟩) := by
  apply isRound_map
  rintro (((⟨⟩ | ⟨⟩) | ⟨⟩) | ⟨⟩) <;> simp

/-- From every reachable configuration finitely many rounds write as many beats as
were offered, exactly when no packet ends at an index that is held back. -/
theorem icmpProc_emits_all_iff (packets : List (List Beat))
    (hpackets : ∀ packet ∈ packets, IsPacket Beat.last packet) :
    (∀ schedule, ∃ bound, ∀ rounds : List (List (Call _)), bound ≤ rounds.length →
      (∀ round ∈ rounds, IsRound round) →
      (icmpProc.run (icmpProc.run (icmpProc.start packets.flatten) schedule)
        rounds.flatten).output.length = packets.flatten.length) ↔
      ∀ packet ∈ packets, ¬ Wedges packet :=
  (icmpProcAccount.finally_iff isRound_icmpProc packets.flatten
    fun output => output.length = packets.flatten.length).trans (length_chain_packets hpackets)

/-- An ICMP packet of 26 bytes, as `rx_split_by_ipv4proto` passes it on. -/
def shortIcmp : List Beat :=
  [⟨0x00005e00016654bf#64, 1#8, 0#8, 0#8⟩,
    ⟨0x648042d808004500#64, 0#8, 0#8, 0#8⟩,
    ⟨0x003c02de00008001#64, 0#8, 0#8, 0#8⟩,
    ⟨0x0000000000000000#64, 0#8, 1#8, 6#8⟩]

theorem icmpProc_emits_all_test :
    (∀ packet ∈ [testIcmpReq, testIcmpReq], IsPacket Beat.last packet) ∧
      ((∀ schedule, ∃ bound, ∀ rounds : List (List (Call _)), bound ≤ rounds.length →
        (∀ round ∈ rounds, IsRound round) →
        (icmpProc.run (icmpProc.run (icmpProc.start [testIcmpReq, testIcmpReq].flatten) schedule)
          rounds.flatten).output.length = 20) ↔
        ∀ packet ∈ [testIcmpReq, testIcmpReq], ¬ Wedges packet) := by
  have hpackets : ∀ packet ∈ [testIcmpReq, testIcmpReq], IsPacket Beat.last packet := by decide
  exact ⟨hpackets, icmpProc_emits_all_iff _ hpackets⟩

/-- The server stays silent: no schedule writes the fourth beat, nor any beat of a
request that follows. -/
theorem icmpProc_wedged_shortIcmp :
    (IsPacket Beat.last shortIcmp ∧ 3 ≤ shortIcmp.length ∧ packetByte shortIcmp 23 = 1#8) ∧
      ∀ schedule,
        (icmpProc.run (icmpProc.start [shortIcmp, testIcmpReq].flatten) schedule).output.length ≠
          [shortIcmp, testIcmpReq].flatten.length := by
  refine ⟨by decide, ?_⟩
  intro schedule hall
  have hlength := (icmpProcAccount.output_isPrefix [shortIcmp, testIcmpReq].flatten
    schedule).length_le
  have hcomputes : (icmpProcAccount.computes [shortIcmp, testIcmpReq].flatten).length = 3 := by
    decide
  rw [hall, hcomputes] at hlength
  revert hlength
  decide

end IcmpServer.IcmpProc
