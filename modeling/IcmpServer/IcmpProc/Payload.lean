import IcmpServer.IcmpProc.Wedging

/-! # The payload behind the headers

What the chain does to a packet from beat 5 on. Up to 256 beats it leaves them
alone; behind that it takes the rest of the packet for headers again.
-/

namespace IcmpServer.IcmpProc

open Elastic

/-! ## Within a stretch -/

theorem getElem?_echoPacket {stretch : List Beat} {position : Nat} (hposition : 5 ≤ position) :
    (echoPacket stretch)[position]? = stretch[position]? := by
  rcases Nat.lt_or_ge stretch.length 5 with hshort | hlength
  · rw [List.getElem?_eq_none (by rw [length_echoPacket]; omega),
      List.getElem?_eq_none (by omega)]
  · obtain ⟨b0, b1, b2, b3, b4, rest, rfl⟩ := exists_five_beats hlength
    obtain ⟨later, rfl⟩ := Nat.exists_eq_add_of_le' hposition
    simp [echoPacket, macPacket, ipPacket, paramPacket, chksumPacket]

/-- The bytes of the reply are those of its definition. -/
theorem packetByte_reply {packet : List Beat} {k : Nat} (hk : k / 8 < packet.length) :
    packetByte (reply packet) k = replyByte packet k := by
  have hbyte : 8 * (k / 8) + k % 8 = k := by omega
  rw [packetByte, reply, List.getElem?_mapIdx, List.getElem?_eq_getElem hk]
  simp only [Option.map_some, replyBeat]
  rw [Words.byte_ofBytes _ _ (Nat.mod_lt k (by decide)), hbyte]

/-- The ICMP checksum of the reply is a 16-bit field other than the request's. -/
theorem replyChksum_spec (packet : List Beat) :
    replyChksum packet < 65536 ∧ replyChksum packet ≠ packetField packet 36 := by
  have hfield := packetField_lt packet 36
  simp only [replyChksum]
  split_ifs <;> omega

/-- A stretch with an ICMP checksum does not come back as it was. -/
theorem echoPacket_ne {stretch : List Beat} (hlength : 5 ≤ stretch.length) :
    echoPacket stretch ≠ stretch := by
  intro hsame
  rw [echoPacket, components_reply hlength] at hsame
  have hhigh : packetByte (reply stretch) 36 = replyByte stretch 36 := packetByte_reply (by omega)
  have hlow : packetByte (reply stretch) 37 = replyByte stretch 37 := packetByte_reply (by omega)
  obtain ⟨hlt, hne⟩ := replyChksum_spec stretch
  rw [hsame] at hhigh hlow
  apply hne
  rw [packetField, hhigh, hlow]
  simp [replyByte]
  omega

/-! ## Behind the first stretch -/

/-- The exchange of the MAC addresses leaves two beats alone when the addresses
are the same. -/
theorem macPacket_eq_iff (b0 b1 : Beat) (rest : List Beat) :
    macPacket (b0 :: b1 :: rest) = b0 :: b1 :: rest ↔
      ∀ k < 6, packetByte (b0 :: b1 :: rest) k = packetByte (b0 :: b1 :: rest) (6 + k) := by
  have hdata : macPacket (b0 :: b1 :: rest) = b0 :: b1 :: rest ↔
      macField.front b0.data b1.data = b0.data ∧ macField.back b0.data b1.data = b1.data := by
    obtain ⟨data0, sop0, eop0, empty0⟩ := b0
    obtain ⟨data1, sop1, eop1, empty1⟩ := b1
    simp [macPacket]
  rw [hdata]
  constructor
  · rintro ⟨hfront, -⟩ k hk
    have hbyte := congrArg (Words.byte · k) hfront
    simp only [byte_macFront _ _ k (by omega)] at hbyte
    interval_cases k <;> simpa [packetByte] using hbyte.symm
  · intro hsame
    refine ⟨Words.ext ?_, Words.ext ?_⟩
    · intro index hindex
      rw [byte_macFront _ _ index hindex]
      have hlow := hsame (index % 6) (Nat.mod_lt index (by decide))
      interval_cases index <;> simpa [packetByte, eq_comm] using hlow
    · intro index hindex
      rw [byte_macBack _ _ index hindex]
      split_ifs with hsource
      · have hhigh := hsame (index + 2) (by omega)
        interval_cases index <;> simpa [packetByte] using hhigh
      · rfl

/-- A stretch without an ICMP type has its MAC addresses exchanged and no more. -/
theorem echoPacket_of_short {stretch : List Beat} (hlength : stretch.length < 5) :
    echoPacket stretch = macPacket stretch := by
  have hmac : (macPacket stretch).length < 5 := by rwa [length_macPacket]
  rw [echoPacket, ipPacket_of_short hmac, paramPacket_of_short hmac, chksumPacket_of_short hmac]

/-- Of two to four beats the chain writes the first two with exchanged addresses,
then the others unless they are held back. -/
theorem echoed_of_short (b0 b1 : Beat) {rest : List Beat} (hlength : rest.length ≤ 2) :
    ∃ count, echoed (b0 :: b1 :: rest) = (macPacket (b0 :: b1 :: rest)).take (count + 2) := by
  by_cases hfour : (b0 :: b1 :: rest).length = 4
  · refine ⟨1, ?_⟩
    rw [echoed, if_neg (by simp), if_pos hfour]
  · refine ⟨rest.length, ?_⟩
    rw [echoed, if_neg (by simp), if_neg hfour, if_pos (by simp; omega),
      echoPacket_of_short (by simp; omega)]
    exact (List.take_of_length_le (by simp)).symm

/-- A longer packet starts with its first stretch. -/
theorem echoed_of_long {packet : List Beat} (hlength : 5 ≤ packet.length) :
    ∃ later, echoed packet = echoPacket (packet.take 256) ++ later := by
  rw [echoed, if_neg (by omega), if_neg (by omega)]
  split_ifs with hwhole
  · exact ⟨[], by rw [List.take_of_length_le hwhole, List.append_nil]⟩
  · exact ⟨_, rfl⟩

/-- What the chain makes of the beats behind a stretch is these beats, as far as it
goes, when they are too few for the headers and carry the same address twice. -/
theorem echoed_isPrefix_iff (tail : List Beat) :
    echoed tail <+: tail ↔ tail.length ≤ 1 ∨ tail.length ≤ 4 ∧
      ∀ k < 6, packetByte tail k = packetByte tail (6 + k) := by
  rcases Nat.lt_or_ge tail.length 2 with hone | htwo
  · refine iff_of_true ?_ (Or.inl (by omega))
    have hnothing : echoed tail = [] := by
      have hlength := length_echoed tail
      by_cases hwedges : tail.length = 1
      · rw [echoed, if_pos hwedges]
      · exact List.length_eq_zero_iff.mp (by omega)
    rw [hnothing]
    exact List.nil_prefix
  · rcases Nat.lt_or_ge tail.length 5 with hshort | hlong
    · obtain ⟨b0, b1, rest, rfl⟩ := exists_two_beats htwo
      have hrest : rest.length ≤ 2 := by
        simp only [List.length_cons] at hshort
        omega
      obtain ⟨count, hechoed⟩ := echoed_of_short b0 b1 hrest
      rw [hechoed, ← macPacket_eq_iff, or_iff_right (by omega), and_iff_right (by omega)]
      simp [macPacket, List.take_prefix]
    · refine iff_of_false ?_ (by omega)
      intro hinitial
      obtain ⟨later, hlater⟩ := echoed_of_long hlong
      rw [hlater] at hinitial
      have hfirst := List.prefix_iff_eq_take.mp ((List.prefix_append _ _).trans hinitial)
      rw [length_echoPacket, List.length_take, ← List.take_eq_take_min] at hfirst
      exact echoPacket_ne (by rw [List.length_take]; omega) hfirst

theorem getElem?_echoed_first {packet : List Beat} (hlength : 256 < packet.length)
    {position : Nat} (hposition : 5 ≤ position) (hfirst : position < 256) :
    (echoed packet)[position]? = packet[position]? := by
  have hfront : (echoPacket (packet.take 256)).length = 256 := by
    rw [length_echoPacket, List.length_take]
    omega
  rw [echoed, if_neg (by omega), if_neg (by omega), if_neg (by omega),
    List.getElem?_append_left (by omega), getElem?_echoPacket hposition,
    List.getElem?_take_of_lt hfirst]

theorem getElem?_echoed_later {packet : List Beat} (hlength : 256 < packet.length)
    (position : Nat) :
    (echoed packet)[256 + position]? = (echoed (packet.drop 256))[position]? := by
  have hfront : (echoPacket (packet.take 256)).length = 256 := by
    rw [length_echoPacket, List.length_take]
    omega
  rw [echoed, if_neg (by omega), if_neg (by omega), if_neg (by omega),
    List.getElem?_append_right (by omega), hfront, Nat.add_sub_cancel_left]

/-- Every beat the chain makes of positions 5 and later is the packet's own. -/
def Returned (packet : List Beat) : Prop :=
  ∀ position beat, 5 ≤ position → (echoed packet)[position]? = some beat →
    packet[position]? = some beat

/-- The first stretch is returned, and what follows it if it comes back as it was. -/
theorem returned_iff_isPrefix {packet : List Beat} (hlength : 256 < packet.length) :
    Returned packet ↔ echoed (packet.drop 256) <+: packet.drop 256 := by
  rw [List.prefix_iff_getElem?]
  constructor
  · intro hreturned position hposition
    have hbeat := hreturned (256 + position) _ (by omega)
      ((getElem?_echoed_later hlength position).trans (List.getElem?_eq_getElem hposition))
    rw [List.getElem?_drop]
    exact hbeat
  · intro hsame position beat hposition hbeat
    rcases Nat.lt_or_ge position 256 with hfirst | hlater
    · rwa [getElem?_echoed_first hlength hposition hfirst] at hbeat
    · obtain ⟨later, rfl⟩ := Nat.exists_eq_add_of_le hlater
      rw [getElem?_echoed_later hlength] at hbeat
      obtain ⟨hlt, heq⟩ := List.getElem?_eq_some_iff.mp hbeat
      rw [← List.getElem?_drop, hsame later hlt, heq]

theorem returned_iff (packet : List Beat) :
    Returned packet ↔ packet.length ≤ 257 ∨ packet.length ≤ 260 ∧
      ∀ k < 6, packetByte packet (2048 + k) = packetByte packet (2054 + k) := by
  rcases Nat.lt_or_ge 256 packet.length with hlong | hshort
  · rw [returned_iff_isPrefix hlong, echoed_isPrefix_iff]
    simp only [List.length_drop, packetByte_drop]
    have hone : packet.length - 256 ≤ 1 ↔ packet.length ≤ 257 := by omega
    have hfour : packet.length - 256 ≤ 4 ↔ packet.length ≤ 260 := by omega
    have hsource : ∀ k, 8 * 256 + (6 + k) = 2054 + k := by omega
    rw [hone, hfour]
    simp only [hsource]
  · refine iff_of_true ?_ (Or.inl (by omega))
    intro position beat hposition hbeat
    have hinside := (List.getElem?_eq_some_iff.mp hbeat).1
    have hlength := length_echoed packet
    rwa [echoed, if_neg (by omega), if_neg (by omega), if_pos hshort,
      getElem?_echoPacket hposition] at hbeat

/-! ## In a run -/

section Runs

variable {before : List (List Beat)} (hbefore : ∀ packet ∈ before, IsPacket Beat.last packet)
include hbefore

/-- Behind packets that do not wedge the chain, the positions of a packet in the
computed stream hold what is made of that packet. -/
theorem getElem?_chain_packet {packet : List Beat} (hpacket : IsPacket Beat.last packet)
    (hpasses : ∀ packet ∈ before, ¬ Wedges packet) (after : List Beat)
    {position : Nat} (hposition : position < packet.length) :
    (icmpProcAccount.computes (before.flatten ++ packet ++ after))[
      before.flatten.length + position]? = (echoed packet)[position]? := by
  rw [icmpProcAccount_computes, List.append_assoc]
  rcases chain_packets before hbefore 0#24 with ⟨-, next, hnext⟩ | ⟨⟨earlier, hmem, hwedges⟩, -⟩
  · obtain ⟨next', hnext'⟩ := chain_packet hpacket next
    rw [hnext, hnext', List.getElem?_append_right (by rw [length_flatten_echoed hpasses]; omega),
      length_flatten_echoed hpasses, Nat.add_sub_cancel_left]
    by_cases hwedges : Wedges packet
    · rw [if_pos hwedges, List.append_nil]
    · exact List.getElem?_append_left (by rwa [length_echoed_of_passes hwedges])
  · exact absurd hwedges (hpasses earlier hmem)

/-- Behind a packet that wedges the chain nothing is computed. -/
theorem getElem?_chain_wedged (hwedged : ∃ earlier ∈ before, Wedges earlier) (later : List Beat)
    (position : Nat) :
    (icmpProcAccount.computes (before.flatten ++ later))[before.flatten.length + position]? =
      none := by
  rw [icmpProcAccount_computes]
  rcases chain_packets before hbefore 0#24 with ⟨hpasses, -⟩ | ⟨-, hless⟩
  · obtain ⟨earlier, hmem, hwedges⟩ := hwedged
    exact absurd hwedges (hpasses earlier hmem)
  · have hshort := hless later
    exact List.getElem?_eq_none (by omega)

/-- What runs write for a packet the chain gets to is what it makes of the packet. -/
theorem returns_iff_returned {packet : List Beat} (hpacket : IsPacket Beat.last packet)
    (hpasses : ∀ packet ∈ before, ¬ Wedges packet) (after : List Beat) :
    (∀ schedule position beat, 5 ≤ position → position < packet.length →
      (icmpProc.run (icmpProc.start (before.flatten ++ packet ++ after)) schedule).output[
        before.flatten.length + position]? = some beat → packet[position]? = some beat) ↔
      Returned packet := by
  have hwritten := icmpProcAccount.written_iff isRound_icmpProc (before.flatten ++ packet ++ after)
    fun index beat => ∀ position, index = before.flatten.length + position → 5 ≤ position →
      position < packet.length → packet[position]? = some beat
  constructor
  · intro hreturned position beat hfive hbeat
    have hposition : position < packet.length := by
      have hinside := (List.getElem?_eq_some_iff.mp hbeat).1
      have hlength := length_echoed packet
      omega
    refine hwritten.mp ?_ _ beat ?_ position rfl hfive hposition
    · rintro schedule index other hother later rfl hfive hlater
      exact hreturned schedule later other hfive hlater hother
    · rwa [getElem?_chain_packet hbefore hpacket hpasses after hposition]
  · intro hreturned schedule position beat hfive hposition hbeat
    refine hwritten.mpr ?_ schedule _ beat hbeat position rfl hfive hposition
    rintro index other hother later rfl hfive hlater
    rw [getElem?_chain_packet hbefore hpacket hpasses after hlater] at hother
    exact hreturned later other hfive hother

end Runs

/-- Behind beat 4 the chain returns a packet as it was received, exactly when it
never gets to the packet, or the packet ends before the counters find a header in
it again, or they find two equal MAC addresses and no more. -/
theorem icmpProc_returns_iff (before : List (List Beat))
    (hbefore : ∀ packet ∈ before, IsPacket Beat.last packet) (packet : List Beat)
    (hpacket : IsPacket Beat.last packet) (after : List Beat) :
    (∀ schedule position beat, 5 ≤ position → position < packet.length →
      (icmpProc.run (icmpProc.start (before.flatten ++ packet ++ after)) schedule).output[
        before.flatten.length + position]? = some beat → packet[position]? = some beat) ↔
      (∃ earlier ∈ before, Wedges earlier) ∨ packet.length ≤ 257 ∨ packet.length ≤ 260 ∧
        ∀ k < 6, packetByte packet (2048 + k) = packetByte packet (2054 + k) := by
  by_cases hwedged : ∃ earlier ∈ before, Wedges earlier
  · refine iff_of_true ?_ (Or.inl hwedged)
    intro schedule position beat hfive hposition hbeat
    obtain ⟨later, hlater⟩ :=
      icmpProcAccount.output_isPrefix (before.flatten ++ packet ++ after) schedule
    have hnone := getElem?_chain_wedged hbefore hwedged (packet ++ after) position
    rw [← List.append_assoc, ← hlater,
      List.getElem?_append_left (List.getElem?_eq_some_iff.mp hbeat).1, hbeat] at hnone
    exact absurd hnone (by simp)
  · have hpasses : ∀ packet ∈ before, ¬ Wedges packet := by simpa using hwedged
    rw [or_iff_right hwedged, ← returned_iff]
    exact returns_iff_returned hbefore hpacket hpasses after

/-- A request of 300 beats: the testbench's headers, with the total length to match, in
front of zeros. -/
def jumboIcmpReq : List Beat :=
  [⟨0x00005e00016654bf#64, 1#8, 0#8, 0#8⟩,
    ⟨0x648042d808004500#64, 0#8, 0#8, 0#8⟩,
    ⟨0x094c02de00008001#64, 0#8, 0#8, 0#8⟩,
    ⟨0x0000ac1f18873dd3#64, 0#8, 0#8, 0#8⟩,
    ⟨0xe204080030f50001#64, 0#8, 0#8, 0#8⟩] ++
    (List.replicate 294 ⟨0#64, 0#8, 0#8, 0#8⟩ ++ [⟨0#64, 0#8, 1#8, 6#8⟩])

theorem isPacket_jumboIcmpReq : IsPacket Beat.last jumboIcmpReq := by
  refine IsPacket.append (by decide) (IsPacket.append ?_ (by decide))
  intro beat hbeat
  rw [List.eq_of_mem_replicate hbeat]
  rfl

theorem length_jumboIcmpReq : jumboIcmpReq.length = 300 := by
  rw [jumboIcmpReq, List.length_append, List.length_append, List.length_replicate]
  rfl

theorem icmpProc_returns_test :
    IsPacket Beat.last testIcmpReq ∧
      ∀ schedule position beat, 5 ≤ position → position < testIcmpReq.length →
        (icmpProc.run (icmpProc.start ([testIcmpReq].flatten ++ testIcmpReq ++ shortIcmp))
          schedule).output[[testIcmpReq].flatten.length + position]? = some beat →
            testIcmpReq[position]? = some beat :=
  ⟨by decide,
    (icmpProc_returns_iff [testIcmpReq] (by decide) testIcmpReq (by decide) shortIcmp).mpr
      (Or.inr (Or.inl (by decide)))⟩

/-- In a jumbo frame some beat behind the headers comes back changed. -/
theorem icmpProc_changes_jumboIcmpReq :
    (IsPacket Beat.last jumboIcmpReq ∧ 5 ≤ jumboIcmpReq.length) ∧
      ∃ schedule position beat, 5 ≤ position ∧ position < jumboIcmpReq.length ∧
        (icmpProc.run (icmpProc.start jumboIcmpReq) schedule).output[position]? = some beat ∧
          jumboIcmpReq[position]? ≠ some beat := by
  have hlength := length_jumboIcmpReq
  refine ⟨⟨isPacket_jumboIcmpReq, by omega⟩, ?_⟩
  by_contra hsame
  push Not at hsame
  have hnone : ∀ packet ∈ ([] : List (List Beat)), IsPacket Beat.last packet := by simp
  have hreturned := returns_iff_returned hnone isPacket_jumboIcmpReq (by simp) []
  have hlong := (returned_iff jumboIcmpReq).mp (hreturned.mp (by simpa using hsame))
  omega

end IcmpServer.IcmpProc
