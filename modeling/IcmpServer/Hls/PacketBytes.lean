import IcmpServer.Hls.Beat
import IcmpServer.Words.Bytes

/-! # Bytes of a packet

A packet read byte by byte, as it was on the wire.
-/

namespace IcmpServer.IcmpProc

/-- Byte `k` of a packet stands in beat `k / 8`, first byte most significant. -/
def packetByte (packet : List Beat) (k : Nat) : BitVec 8 :=
  match packet[k / 8]? with
  | some beat => Words.byte beat.data (k % 8)
  | none => 0#8

theorem packetByte_drop (packet : List Beat) (count k : Nat) :
    packetByte (packet.drop count) k = packetByte packet (8 * count + k) := by
  have hdiv : (8 * count + k) / 8 = count + k / 8 := by omega
  have hmod : (8 * count + k) % 8 = k % 8 := by omega
  simp only [packetByte, List.getElem?_drop, hdiv, hmod]

theorem packetByte_of_isPrefix {front whole : List Beat} (hinitial : front <+: whole) {k : Nat}
    (hk : k / 8 < front.length) : packetByte front k = packetByte whole k := by
  obtain ⟨rest, rfl⟩ := hinitial
  rw [packetByte, packetByte, List.getElem?_append_left hk]

end IcmpServer.IcmpProc
