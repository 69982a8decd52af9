import IcmpServer.Elastic.Packets
import IcmpServer.Hls.PacketBytes
import IcmpServer.IcmpProc.Accounts

/-! # The echo reply, packet by packet

The abstract meaning of the ICMP chain is given on the bytes of one packet. Each
component acts on a stream of packets by acting on every packet, and the four
actions together produce the reply.
-/

namespace IcmpServer.IcmpProc

open Elastic

/-! ## The reply on bytes -/

/-- The 16-bit big-endian field at bytes `k` and `k + 1`. -/
def packetField (packet : List Beat) (k : Nat) : Nat :=
  256 * (packetByte packet k).toNat + (packetByte packet (k + 1)).toNat

theorem packetField_lt (packet : List Beat) (k : Nat) : packetField packet k < 65536 := by
  have hhigh := (packetByte packet k).isLt
  have hlow := (packetByte packet (k + 1)).isLt
  simp only [packetField]
  omega

/-- Integer sum of the IPv4 header words other than the checksum. -/
def headerSum (packet : List Beat) : Nat :=
  ([14, 16, 18, 20, 22, 26, 28, 30, 32].map (packetField packet)).sum

/-- Complement of the low 16 bits of the once-folded header sum. -/
def headerChksum (packet : List Beat) : Nat :=
  0xFFFF - (headerSum packet % 0x10000 + headerSum packet / 0x10000) % 0x10000

/-- The ICMP checksum field after the type changes from 8 to 0. -/
def replyChksum (packet : List Beat) : Nat :=
  let h := packetField packet 36
  if h + 0x0800 ≤ 0xFFFF then h + 0x0800 else h + 0x0800 - 0xFFFF

/-- Byte `k` of the reply to a packet. -/
def replyByte (packet : List Beat) (k : Nat) : BitVec 8 :=
  if k < 6 then packetByte packet (k + 6)
  else if k < 12 then packetByte packet (k - 6)
  else if k = 24 then BitVec.ofNat 8 (headerChksum packet / 256)
  else if k = 25 then BitVec.ofNat 8 (headerChksum packet)
  else if 26 ≤ k ∧ k < 30 then packetByte packet (k + 4)
  else if 30 ≤ k ∧ k < 34 then packetByte packet (k - 4)
  else if k = 34 then 0#8
  else if k = 36 then BitVec.ofNat 8 (replyChksum packet / 256)
  else if k = 37 then BitVec.ofNat 8 (replyChksum packet)
  else packetByte packet k

/-- A beat with the reply's bytes at its position. -/
def replyBeat (packet : List Beat) (index : Nat) (beat : Beat) : Beat :=
  { beat with data := Words.ofBytes fun k => replyByte packet (8 * index + k) }

/-- The reply: the same beats with the reply's bytes. -/
def reply (packet : List Beat) : List Beat :=
  packet.mapIdx (replyBeat packet)

/-- The packets the chain is built for: long enough for the headers, and short
enough for the 8-bit indices. -/
def Echoable (packet : List Beat) : Prop :=
  IsPacket Beat.last packet ∧ 5 ≤ packet.length ∧ packet.length ≤ 256

/-! ## Numbered packets -/

/-- The beats of a packet with their positions from `start` on. -/
def numbered : Nat → List Beat → List IdxBeat
  | _, [] => []
  | start, beat :: rest => ⟨beat, BitVec.ofNat 8 start⟩ :: numbered (start + 1) rest

/-- The counter numbers a packet by position and starts over behind it. -/
theorem indexed_packet {packet : List Beat} (hpacket : IsPacket Beat.last packet) (start : Nat)
    (rest : List Beat) :
    indexed (BitVec.ofNat 8 start) (packet ++ rest) =
      numbered start packet ++ indexed 0#8 rest := by
  induction hpacket generalizing start with
  | final hlast => simp [indexed, numbered, nextIdx, hlast]
  | more hlast _ ih =>
      have hnext := ih (start + 1)
      rw [BitVec.ofNat_add] at hnext
      simp [indexed, numbered, nextIdx, hlast, hnext]

/-- Beats without `eop` are numbered by position, and the counter goes on behind them. -/
theorem indexed_more {beats : List Beat} (hmore : ∀ beat ∈ beats, beat.last = false) (start : Nat)
    (rest : List Beat) :
    indexed (BitVec.ofNat 8 start) (beats ++ rest) =
      numbered start beats ++ indexed (BitVec.ofNat 8 (start + beats.length)) rest := by
  induction beats generalizing start with
  | nil => rfl
  | cons beat beats ih =>
      have hnext := ih (fun other hother => hmore other (List.mem_cons_of_mem _ hother)) (start + 1)
      have hlength : start + 1 + beats.length = start + (beat :: beats).length := by
        rw [List.length_cons]
        omega
      rw [hlength, BitVec.ofNat_add] at hnext
      simp [indexed, numbered, nextIdx, hmore beat List.mem_cons_self, hnext]

/-- Within 256 beats the counter does not wrap. -/
theorem numbered_idx_mem {start : Nat} {packet : List Beat}
    (hlength : start + packet.length ≤ 256) :
    ∀ held ∈ numbered start packet,
      start ≤ held.idx.toNat ∧ held.idx.toNat < start + packet.length := by
  induction packet generalizing start with
  | nil => simp [numbered]
  | cons beat rest ih =>
      intro held hmem
      simp only [List.length_cons] at hlength ⊢
      rcases List.mem_cons.mp hmem with rfl | hrest
      · simp only [BitVec.toNat_ofNat]
        omega
      · have hlater := ih (by omega) held hrest
        omega

/-- Only the beats from a position on to the end of the packet get their indices. -/
theorem numbered_idx_ne {idx : BitVec 8} {start : Nat} {packet : List Beat}
    (hidx : idx.toNat < start ∨ start + packet.length ≤ idx.toNat)
    (hlength : start + packet.length ≤ 256) :
    ∀ held ∈ numbered start packet, held.idx ≠ idx := by
  rintro held hmem rfl
  have hrange := numbered_idx_mem hlength held hmem
  omega

theorem numbered_map_beat (start : Nat) (packet : List Beat) :
    (numbered start packet).map IdxBeat.beat = packet := by
  induction packet generalizing start with
  | nil => rfl
  | cons beat rest ih => simp [numbered, ih]

/-- Beats that the counter numbers from zero and behind which it starts over: it is
restarted by `eop`, or wraps behind 256 beats. -/
def Stretch (beats : List Beat) : Prop :=
  (IsPacket Beat.last beats ∧ beats.length ≤ 256) ∨
    ((∀ beat ∈ beats, beat.last = false) ∧ beats.length = 256)

theorem indexed_stretch {beats : List Beat} (hstretch : Stretch beats) (rest : List Beat) :
    indexed 0#8 (beats ++ rest) = numbered 0 beats ++ indexed 0#8 rest := by
  rcases hstretch with ⟨hpacket, -⟩ | ⟨hmore, hlength⟩
  · exact indexed_packet hpacket 0 rest
  · have hwrap := indexed_more hmore 0 rest
    rw [hlength] at hwrap
    exact hwrap

theorem Stretch.length_le {beats : List Beat} (hstretch : Stretch beats) : beats.length ≤ 256 := by
  rcases hstretch with ⟨-, hlength⟩ | ⟨-, hlength⟩
  · exact hlength
  · exact Nat.le_of_eq hlength

theorem Stretch.ne_nil {beats : List Beat} (hstretch : Stretch beats) : beats ≠ [] := by
  rcases hstretch with ⟨hpacket, -⟩ | ⟨-, hlength⟩
  · exact hpacket.ne_nil
  · rintro rfl
    simp at hlength

/-- Being a stretch depends on the markers only. -/
theorem Stretch.of_map_last {beats other : List Beat} (hstretch : Stretch beats)
    (hmarks : other.map Beat.last = beats.map Beat.last) : Stretch other := by
  have hlength : other.length = beats.length := by simpa using congrArg List.length hmarks
  refine hstretch.imp ?_ ?_
  · rintro ⟨hpacket, hle⟩
    exact ⟨hpacket.of_map_eq hmarks, hlength ▸ hle⟩
  · rintro ⟨hmore, hwhole⟩
    refine ⟨?_, hlength ▸ hwhole⟩
    intro beat hbeat
    have hmark := List.mem_map_of_mem (f := Beat.last) hbeat
    rw [hmarks] at hmark
    obtain ⟨source, hsource, heq⟩ := List.mem_map.mp hmark
    rw [← heq, hmore source hsource]

theorem Echoable.stretch {packet : List Beat} (hpacket : Echoable packet) : Stretch packet :=
  Or.inl ⟨hpacket.1, hpacket.2.2⟩

/-! ## The components on stretches -/

theorem SwapField.rewrite_numbered (field : SwapField) {front : List IdxBeat}
    (hidx : ∀ held ∈ front, held.idx ≠ field.held) (rest : List IdxBeat) :
    field.rewrite (front ++ rest) = front.map IdxBeat.beat ++ field.rewrite rest := by
  induction front with
  | nil => rfl
  | cons held front ih =>
      rw [List.cons_append, field.rewrite_bypass held _ (hidx held List.mem_cons_self),
        ih fun other hother => hidx other (List.mem_cons_of_mem _ hother)]
      rfl

/-- Beats 0 and 1 with the MAC addresses exchanged. -/
def macPacket : List Beat → List Beat
  | b0 :: b1 :: rest =>
      { b0 with data := macField.front b0.data b1.data } ::
        { b1 with data := macField.back b0.data b1.data } :: rest
  | packet => packet

/-- Beats 3 and 4 with the IP addresses exchanged. -/
def ipPacket : List Beat → List Beat
  | b0 :: b1 :: b2 :: b3 :: b4 :: rest =>
      b0 :: b1 :: b2 :: { b3 with data := ipField.front b3.data b4.data } ::
        { b4 with data := ipField.back b3.data b4.data } :: rest
  | packet => packet

/-- Beat 4 with the type cleared and the ICMP checksum updated. -/
def paramPacket : List Beat → List Beat
  | b0 :: b1 :: b2 :: b3 :: b4 :: rest =>
      b0 :: b1 :: b2 :: b3 :: { b4 with data := paramData 4#8 b4.data } :: rest
  | packet => packet

/-- The folded sum of the header words in beats 1 to 4. -/
def chksumOf (b1 b2 b3 b4 : Beat) : BitVec 24 :=
  chksumUpdate (chksumUpdate (chksumUpdate (chksumUpdate 0#24 ⟨b1, 1#8⟩) ⟨b2, 2#8⟩)
    ⟨b3, 3#8⟩) ⟨b4, 4#8⟩

/-- Beat 3 with the header checksum inserted. -/
def chksumPacket : List Beat → List Beat
  | b0 :: b1 :: b2 :: b3 :: b4 :: rest =>
      b0 :: b1 :: b2 :: chksumInsert (chksumOf b1 b2 b3 b4) b3 :: b4 :: rest
  | packet => packet

/-- Beats of a packet long enough for the MAC addresses. -/
theorem exists_two_beats {packet : List Beat} (hlength : 2 ≤ packet.length) :
    ∃ b0 b1 rest, packet = b0 :: b1 :: rest := by
  match packet, hlength with
  | b0 :: b1 :: rest, _ => exact ⟨b0, b1, rest, rfl⟩

/-- Beats of a packet long enough for the header. -/
theorem exists_five_beats {packet : List Beat} (hlength : 5 ≤ packet.length) :
    ∃ b0 b1 b2 b3 b4 rest, packet = b0 :: b1 :: b2 :: b3 :: b4 :: rest := by
  match packet, hlength with
  | b0 :: b1 :: b2 :: b3 :: b4 :: rest, _ => exact ⟨b0, b1, b2, b3, b4, rest, rfl⟩

/-- Shorter ones have no IP addresses, no ICMP type and no header checksum. -/
theorem ipPacket_of_short {packet : List Beat} (hlength : packet.length < 5) :
    ipPacket packet = packet := by
  match packet, hlength with
  | [], _ | [_], _ | [_, _], _ | [_, _, _], _ | [_, _, _, _], _ => rfl

theorem paramPacket_of_short {packet : List Beat} (hlength : packet.length < 5) :
    paramPacket packet = packet := by
  match packet, hlength with
  | [], _ | [_], _ | [_, _], _ | [_, _, _], _ | [_, _, _, _], _ => rfl

theorem chksumPacket_of_short {packet : List Beat} (hlength : packet.length < 5) :
    chksumPacket packet = packet := by
  match packet, hlength with
  | [], _ | [_], _ | [_, _], _ | [_, _, _], _ | [_, _, _, _], _ => rfl

/-- `sop`, `eop` and `empty`. -/
def markers (beat : Beat) : BitVec 8 × BitVec 8 × BitVec 8 :=
  (beat.sop, beat.eop, beat.empty)

/-- Where a packet ends is one of the markers. -/
theorem last_eq_markers : Beat.last = (fun marked => marked.2.1 != 0#8) ∘ markers := rfl

theorem map_last_of_markers {left right : List Beat}
    (hmarkers : left.map markers = right.map markers) :
    left.map Beat.last = right.map Beat.last := by
  rw [last_eq_markers, ← List.map_map, hmarkers, List.map_map]

theorem map_markers_macPacket (packet : List Beat) :
    (macPacket packet).map markers = packet.map markers := by
  match packet with
  | [] | [_] | _ :: _ :: _ => rfl

theorem map_markers_ipPacket (packet : List Beat) :
    (ipPacket packet).map markers = packet.map markers := by
  rcases Nat.lt_or_ge packet.length 5 with hshort | hlength
  · rw [ipPacket_of_short hshort]
  · obtain ⟨b0, b1, b2, b3, b4, rest, rfl⟩ := exists_five_beats hlength
    rfl

theorem map_markers_paramPacket (packet : List Beat) :
    (paramPacket packet).map markers = packet.map markers := by
  rcases Nat.lt_or_ge packet.length 5 with hshort | hlength
  · rw [paramPacket_of_short hshort]
  · obtain ⟨b0, b1, b2, b3, b4, rest, rfl⟩ := exists_five_beats hlength
    rfl

theorem map_markers_chksumPacket (packet : List Beat) :
    (chksumPacket packet).map markers = packet.map markers := by
  rcases Nat.lt_or_ge packet.length 5 with hshort | hlength
  · rw [chksumPacket_of_short hshort]
  · obtain ⟨b0, b1, b2, b3, b4, rest, rfl⟩ := exists_five_beats hlength
    rfl

section Stretches

variable {beats : List Beat} (hstretch : Stretch beats)
include hstretch

theorem macField_stretch (hlength : beats.length ≠ 1) (rest : List Beat) :
    macField.rewrite (indexed 0#8 (beats ++ rest)) =
      macPacket beats ++ macField.rewrite (indexed 0#8 rest) := by
  rw [indexed_stretch hstretch]
  have hwrap := hstretch.length_le
  have hpositive := List.length_pos_iff.mpr hstretch.ne_nil
  obtain ⟨b0, b1, tail, rfl⟩ := exists_two_beats (by omega : 2 ≤ beats.length)
  simp only [List.length_cons] at hwrap
  have hidx : ∀ held ∈ numbered 2 tail, held.idx ≠ macField.held :=
    numbered_idx_ne (Or.inl (by decide)) (by omega)
  rw [numbered, numbered, List.cons_append, List.cons_append,
    macField.rewrite_swap _ _ _ rfl rfl, macField.rewrite_numbered hidx, numbered_map_beat]
  rfl

theorem ipField_stretch (hlength : beats.length ≠ 4) (rest : List Beat) :
    ipField.rewrite (indexed 0#8 (beats ++ rest)) =
      ipPacket beats ++ ipField.rewrite (indexed 0#8 rest) := by
  rw [indexed_stretch hstretch]
  have hwrap := hstretch.length_le
  rcases Nat.lt_or_ge beats.length 5 with hshort | hlong
  · have hidx : ∀ held ∈ numbered 0 beats, held.idx ≠ ipField.held :=
      numbered_idx_ne (Or.inr (by simp only [ipField, BitVec.toNat_ofNat]; omega)) (by omega)
    rw [ipField.rewrite_numbered hidx, numbered_map_beat, ipPacket_of_short hshort]
  · obtain ⟨b0, b1, b2, b3, b4, tail, rfl⟩ := exists_five_beats hlong
    simp only [List.length_cons] at hwrap
    have hidx : ∀ held ∈ numbered 5 tail, held.idx ≠ ipField.held :=
      numbered_idx_ne (Or.inl (by decide)) (by omega)
    have hzero : 0#8 ≠ 3#8 := by decide
    have hone : 1#8 ≠ 3#8 := by decide
    have htwo : 2#8 ≠ 3#8 := by decide
    simp only [numbered, List.cons_append]
    rw [ipField.rewrite_bypass _ _ hzero, ipField.rewrite_bypass _ _ hone,
      ipField.rewrite_bypass _ _ htwo, ipField.rewrite_swap _ _ _ rfl rfl,
      ipField.rewrite_numbered hidx, numbered_map_beat]
    rfl

end Stretches

theorem paramRewrite_bypass (held : IdxBeat) (hidx : held.idx ≠ 4#8) :
    paramRewrite held = held.beat := by
  simp [paramRewrite, paramData, hidx]

theorem map_paramRewrite_numbered {front : List IdxBeat}
    (hidx : ∀ held ∈ front, held.idx ≠ 4#8) :
    front.map paramRewrite = front.map IdxBeat.beat :=
  List.map_congr_left fun held hmem => paramRewrite_bypass held (hidx held hmem)

theorem param_stretch {beats : List Beat} (hstretch : Stretch beats) (rest : List Beat) :
    (indexed 0#8 (beats ++ rest)).map paramRewrite =
      paramPacket beats ++ (indexed 0#8 rest).map paramRewrite := by
  rw [indexed_stretch hstretch, List.map_append]
  have hwrap := hstretch.length_le
  congr 1
  rcases Nat.lt_or_ge beats.length 5 with hshort | hlong
  · have hidx : ∀ held ∈ numbered 0 beats, held.idx ≠ 4#8 :=
      numbered_idx_ne (Or.inr (by simp only [BitVec.toNat_ofNat]; omega)) (by omega)
    rw [map_paramRewrite_numbered hidx, numbered_map_beat, paramPacket_of_short hshort]
  · obtain ⟨b0, b1, b2, b3, b4, tail, rfl⟩ := exists_five_beats hlong
    simp only [List.length_cons] at hwrap
    have hidx : ∀ held ∈ numbered 5 tail, held.idx ≠ 4#8 :=
      numbered_idx_ne (Or.inl (by decide)) (by omega)
    simp only [numbered, List.map_cons, map_paramRewrite_numbered hidx, numbered_map_beat]
    rfl

/-- Beats of other indices leave the sum as it is. -/
theorem chksumUpdate_other (checksum : BitVec 24) (held : IdxBeat)
    (hidx : held.idx = 0#8 ∨ 5 ≤ held.idx.toNat) : chksumUpdate checksum held = checksum := by
  have hne : ∀ idx : BitVec 8, idx ≠ 0#8 → idx.toNat < 5 → held.idx ≠ idx := by
    rintro idx hzero hless rfl
    rcases hidx with heq | hle
    · exact hzero heq
    · omega
  simp [chksumUpdate, hne 1#8 (by decide) (by decide), hne 2#8 (by decide) (by decide),
    hne 3#8 (by decide) (by decide), hne 4#8 (by decide) (by decide)]

/-- Beat 1 starts a new sum. -/
theorem chksumUpdate_first (checksum : BitVec 24) (beat : Beat) :
    chksumUpdate checksum ⟨beat, 1#8⟩ = chksumUpdate 0#24 ⟨beat, 1#8⟩ := rfl

/-- Beats of other indices than 3 are summed and left unchanged. -/
theorem chksumRewrite_numbered {front : List IdxBeat} (hidx : ∀ held ∈ front, held.idx ≠ 3#8)
    (checksum : BitVec 24) (rest : List IdxBeat) :
    chksumRewrite none checksum (front ++ rest) =
      front.map IdxBeat.beat ++ chksumRewrite none (front.foldl chksumUpdate checksum) rest := by
  induction front generalizing checksum with
  | nil => rfl
  | cons held front ih =>
      rw [List.cons_append, chksumRewrite_bypass _ _ _ (hidx held List.mem_cons_self),
        ih fun other hother => hidx other (List.mem_cons_of_mem _ hother)]
      rfl

/-- The sum inserted into a stretch starts at its beat 1, whatever the register
held before. -/
theorem chksum_stretch {beats : List Beat} (hstretch : Stretch beats)
    (hlength : beats.length ≠ 4) (checksum : BitVec 24) :
    ∃ next, ∀ rest, chksumRewrite none checksum (indexed 0#8 (beats ++ rest)) =
      chksumPacket beats ++ chksumRewrite none next (indexed 0#8 rest) := by
  have hwrap := hstretch.length_le
  rcases Nat.lt_or_ge beats.length 5 with hshort | hlong
  · have hidx : ∀ held ∈ numbered 0 beats, held.idx ≠ 3#8 :=
      numbered_idx_ne (Or.inr (by simp only [BitVec.toNat_ofNat]; omega)) (by omega)
    refine ⟨(numbered 0 beats).foldl chksumUpdate checksum, ?_⟩
    intro rest
    rw [indexed_stretch hstretch, chksumRewrite_numbered hidx, numbered_map_beat,
      chksumPacket_of_short hshort]
  · obtain ⟨b0, b1, b2, b3, b4, tail, rfl⟩ := exists_five_beats hlong
    simp only [List.length_cons] at hwrap
    have hidx : ∀ held ∈ numbered 5 tail, held.idx ≠ 3#8 :=
      numbered_idx_ne (Or.inl (by decide)) (by omega)
    have hzero : 0#8 ≠ 3#8 := by decide
    have hone : 1#8 ≠ 3#8 := by decide
    have htwo : 2#8 ≠ 3#8 := by decide
    refine ⟨(numbered 5 tail).foldl chksumUpdate (chksumOf b1 b2 b3 b4), ?_⟩
    intro rest
    rw [indexed_stretch hstretch]
    simp only [numbered, List.cons_append]
    rw [chksumRewrite_bypass _ _ _ hzero, chksumUpdate_other _ _ (Or.inl rfl),
      chksumRewrite_bypass _ _ _ hone, chksumUpdate_first, chksumRewrite_bypass _ _ _ htwo,
      chksumRewrite_insert _ _ _ _ rfl rfl, chksumRewrite_numbered hidx, numbered_map_beat]
    rfl

end IcmpServer.IcmpProc
