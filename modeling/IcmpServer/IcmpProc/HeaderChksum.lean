import IcmpServer.IcmpProc.Chain
import IcmpServer.Words.OnesComplement
import Mathlib.Algebra.Group.Action.Defs
import Mathlib.Algebra.Order.BigOperators.Group.List

/-! # The header checksum

`icmp_proc_ipv4chksum` on its own. It folds the carries of the header sum once;
the checksum it inserts is valid when the folded sum has no carry left.
-/

namespace IcmpServer.IcmpProc

open Elastic

/-- The words of the IPv4 header, the checksum among them. -/
def headerWords (packet : List Beat) : List Nat :=
  [14, 16, 18, 20, 22, 24, 26, 28, 30, 32].map (packetField packet)

/-- The header carries a valid Internet checksum. -/
def HeaderValid (packet : List Beat) : Prop :=
  Words.onesSum 0xFFFF (headerWords packet) = 0xFFFF

instance : DecidablePred HeaderValid :=
  fun packet => inferInstanceAs (Decidable (Words.onesSum 0xFFFF (headerWords packet) = 0xFFFF))

/-! ## The inserted checksum -/

theorem headerChksum_lt (packet : List Beat) : headerChksum packet < 65536 := by
  unfold headerChksum
  omega

/-- Only the two checksum bytes change, to the complement of the folded sum. -/
theorem packetByte_chksumPacket {packet : List Beat} (hlength : 5 ≤ packet.length) (k : Nat) :
    packetByte (chksumPacket packet) k =
      if k = 24 then BitVec.ofNat 8 (headerChksum packet / 256)
      else if k = 25 then BitVec.ofNat 8 (headerChksum packet)
      else packetByte packet k := by
  obtain ⟨b0, b1, b2, b3, b4, rest, rfl⟩ := exists_five_beats hlength
  have hsum : (chksumSum b1 b2 b3 b4).toNat = headerSum (b0 :: b1 :: b2 :: b3 :: b4 :: rest) := by
    rw [chksumSum_toNat]
    simp [byteField, headerSum, packetField, packetByte]
    omega
  have hchksum : 0xFFFF - (chksumOf b1 b2 b3 b4).toNat % 0x10000 =
      headerChksum (b0 :: b1 :: b2 :: b3 :: b4 :: rest) := by
    rw [chksumOf_toNat, hsum]
    rfl
  by_cases hbeat : k / 8 = 3
  · have hbyte : packetByte (chksumPacket (b0 :: b1 :: b2 :: b3 :: b4 :: rest)) k =
        Words.byte (chksumInsert (chksumOf b1 b2 b3 b4) b3).data (k % 8) := by
      simp [packetByte, chksumPacket, hbeat]
    have hother : packetByte (b0 :: b1 :: b2 :: b3 :: b4 :: rest) k =
        Words.byte b3.data (k % 8) := by
      simp [packetByte, hbeat]
    have hhigh : k % 8 = 0 ↔ k = 24 := by omega
    have hlow : k % 8 = 1 ↔ k = 25 := by omega
    rw [hbyte, hother, byte_chksumInsert _ _ _ (Nat.mod_lt k (by decide)), hchksum]
    simp only [hhigh, hlow]
  · rw [if_neg (by omega), if_neg (by omega)]
    have hsame : (chksumPacket (b0 :: b1 :: b2 :: b3 :: b4 :: rest))[k / 8]? =
        (b0 :: b1 :: b2 :: b3 :: b4 :: rest)[k / 8]? := by
      generalize k / 8 = index at hbeat
      rcases index with _ | _ | _ | _ | index
      · rfl
      · rfl
      · rfl
      · exact absurd rfl hbeat
      · rfl
    rw [packetByte, hsame, packetByte]

theorem packetField_chksumPacket {packet : List Beat} (hlength : 5 ≤ packet.length) {k : Nat}
    (heven : k % 2 = 0) :
    packetField (chksumPacket packet) k =
      if k = 24 then headerChksum packet else packetField packet k := by
  have hlt := headerChksum_lt packet
  simp only [packetField, packetByte_chksumPacket hlength]
  by_cases hfield : k = 24
  · subst hfield
    simp
    omega
  · rw [if_neg hfield, if_neg (by omega), if_neg (by omega), if_neg (by omega), if_neg hfield]

theorem headerSum_lt (packet : List Beat) : headerSum packet < 9 * 65536 := by
  have hfields : ∀ word ∈ [14, 16, 18, 20, 22, 26, 28, 30, 32].map (packetField packet),
      word ≤ 65535 := by
    intro word hword
    obtain ⟨k, -, rfl⟩ := List.mem_map.mp hword
    exact Nat.le_of_lt_succ (packetField_lt packet k)
  have hsum := List.sum_le_card_nsmul _ 65535 hfields
  simp only [List.length_map, List.length_cons, List.length_nil, smul_eq_mul] at hsum
  unfold headerSum
  omega

/-- Complementing the low word of the folded sum completes the sum to a multiple of
all ones, unless the fold has left a carry. -/
theorem completed_iff (sum : Nat) (hsum : sum < 9 * 65536) :
    (sum + (0xFFFF - (sum % 65536 + sum / 65536) % 65536)) % 0xFFFF = 0 ↔
      sum % 65536 + sum / 65536 < 65536 := by
  rcases Nat.lt_or_ge (sum % 65536 + sum / 65536) 65536 with hfolded | hcarry
  · have hmultiple : sum + (0xFFFF - (sum % 65536 + sum / 65536) % 65536) =
        0xFFFF * (sum / 65536 + 1) := by
      rw [Nat.mod_eq_of_lt hfolded]
      omega
    rw [hmultiple, Nat.mul_mod_right]
    exact iff_of_true rfl hfolded
  · have hlow : (sum % 65536 + sum / 65536) % 65536 = sum % 65536 + sum / 65536 - 65536 := by
      omega
    have hexcess : sum + (0xFFFF - (sum % 65536 + sum / 65536) % 65536) =
        0xFFFF * (sum / 65536 + 2) + 1 := by
      rw [hlow]
      omega
    rw [hexcess, Nat.mul_add_mod]
    exact iff_of_false (by decide) (by omega)

/-- The inserted checksum completes the header when one fold leaves no carry. -/
theorem headerValid_chksumPacket {packet : List Beat} (hlength : 5 ≤ packet.length) :
    HeaderValid (chksumPacket packet) ↔
      headerSum packet % 65536 + headerSum packet / 65536 < 65536 := by
  have hwords : ∀ word ∈ headerWords (chksumPacket packet), word ≤ 0xFFFF := by
    intro word hword
    obtain ⟨k, -, rfl⟩ := List.mem_map.mp hword
    exact Nat.le_of_lt_succ (packetField_lt _ k)
  have hsum : (headerWords (chksumPacket packet)).sum = headerSum packet + headerChksum packet := by
    simp [headerWords, headerSum, packetField_chksumPacket hlength]
    omega
  have hbound := headerSum_lt packet
  rw [HeaderValid, Words.onesSum_eq_ones_iff _ hwords (by decide), hsum, headerChksum,
    completed_iff _ hbound, and_iff_left_iff_imp]
  intro hfolded
  rw [Nat.mod_eq_of_lt hfolded]
  omega

/-! ## In a run -/

/-- Stretches in front are dealt with on their own, and so is the next one. -/
theorem chksumRewrite_stretches (before : List (List Beat))
    (hbefore : ∀ beats ∈ before, Stretch beats ∧ beats.length ≠ 4) (checksum : BitVec 24) :
    ∃ next, ∀ rest, chksumRewrite none checksum (indexed 0#8 (before.flatten ++ rest)) =
      (before.map chksumPacket).flatten ++ chksumRewrite none next (indexed 0#8 rest) := by
  induction before generalizing checksum with
  | nil => exact ⟨checksum, fun _ => rfl⟩
  | cons beats before ih =>
      obtain ⟨hstretch, hlength⟩ := hbefore beats List.mem_cons_self
      obtain ⟨between, hbetween⟩ := chksum_stretch hstretch hlength checksum
      obtain ⟨next, hnext⟩ :=
        ih (fun other hother => hbefore other (List.mem_cons_of_mem _ hother)) between
      refine ⟨next, ?_⟩
      intro rest
      rw [List.flatten_cons, List.append_assoc, hbetween, hnext, List.map_cons, List.flatten_cons,
        List.append_assoc]

@[simp] theorem length_chksumPacket (packet : List Beat) :
    (chksumPacket packet).length = packet.length := by
  simpa using congrArg List.length (map_markers_chksumPacket packet)

/-- The packet the component computes for one behind others. -/
theorem ipv4chksum_packet (before : List (List Beat))
    (hbefore : ∀ beats ∈ before, Stretch beats ∧ beats.length ≠ 4) {packet : List Beat}
    (hpacket : Echoable packet) (after : List Beat) :
    ∃ later, ipv4chksumAccount.computes (before.flatten ++ packet ++ after) =
      (before.map chksumPacket).flatten ++ (chksumPacket packet ++ later) := by
  obtain ⟨between, hbetween⟩ := chksumRewrite_stretches before hbefore 0#24
  have hlength := hpacket.2.1
  obtain ⟨next, hnext⟩ := chksum_stretch hpacket.stretch (by omega) between
  refine ⟨chksumRewrite none next (indexed 0#8 after), ?_⟩
  rw [← hnext, ← hbetween, List.append_assoc]
  rfl

/-- Behind stretches that the component passes on, the header it emits for a packet
of 5 to 256 beats is valid exactly when one fold leaves no carry in its sum. -/
theorem ipv4chksum_valid_iff (before : List (List Beat))
    (hbefore : ∀ beats ∈ before, Stretch beats ∧ beats.length ≠ 4) (packet : List Beat)
    (hpacket : Echoable packet) (after : List Beat) :
    (∀ schedule,
      before.flatten.length + packet.length ≤ (ipv4chksum.run (ipv4chksum.start
          (before.flatten ++ packet ++ after)) schedule).output.length →
        HeaderValid (((ipv4chksum.run (ipv4chksum.start (before.flatten ++ packet ++ after))
          schedule).output.drop before.flatten.length).take packet.length)) ↔
      headerSum packet % 65536 + headerSum packet / 65536 < 65536 := by
  obtain ⟨later, hcomputes⟩ := ipv4chksum_packet before hbefore hpacket after
  have hfront : (before.map chksumPacket).flatten.length = before.flatten.length :=
    length_flatten_map fun beats _ => length_chksumPacket beats
  rw [← headerValid_chksumPacket hpacket.2.1]
  exact ipv4chksumAccount.window_iff isRound_component hcomputes hfront
    (length_chksumPacket packet) HeaderValid

/-- The request of the testbench with identification 0x5645. -/
def carryIcmpReq : List Beat :=
  testIcmpReq.set 2 ⟨0x003c564500008001#64, 0#8, 0#8, 0#8⟩

theorem ipv4chksum_valid_test :
    (∀ schedule,
      [testIcmpReq].flatten.length + testIcmpReq.length ≤ (ipv4chksum.run (ipv4chksum.start
          ([testIcmpReq].flatten ++ testIcmpReq ++ [])) schedule).output.length →
        HeaderValid (((ipv4chksum.run (ipv4chksum.start
            ([testIcmpReq].flatten ++ testIcmpReq ++ [])) schedule).output.drop
          [testIcmpReq].flatten.length).take testIcmpReq.length)) ↔
      headerSum testIcmpReq % 65536 + headerSum testIcmpReq / 65536 < 65536 := by
  have hpacket : Echoable testIcmpReq := by
    simpa [Echoable] using by decide
  refine ipv4chksum_valid_iff [testIcmpReq] ?_ testIcmpReq hpacket []
  rintro beats hbeats
  rw [List.mem_singleton.mp hbeats]
  exact ⟨hpacket.stretch, by decide⟩

/-- Its sum folds to one carry more, and the header that comes out is not valid. -/
theorem ipv4chksum_invalid_carryIcmpReq :
    (IsPacket Beat.last carryIcmpReq ∧ 5 ≤ carryIcmpReq.length ∧ carryIcmpReq.length ≤ 256) ∧
      (ipv4chksum.run (ipv4chksum.start carryIcmpReq)
          (List.replicate 14 ⟨(), true, true⟩)).output.length = carryIcmpReq.length ∧
        ¬ HeaderValid (ipv4chksum.run (ipv4chksum.start carryIcmpReq)
          (List.replicate 14 ⟨(), true, true⟩)).output := by
  decide

end IcmpServer.IcmpProc
