import Mathlib.Data.List.Basic

/-! # Stream beats of the HLS components

The components exchange one packed structure per beat. Its padding bytes are
never read and are left out.
-/

namespace IcmpServer

/-- `L8_AVALON_ST_PKT`: eight data bytes, first byte most significant, with the
packet markers of the beat. -/
structure Beat where
  data : BitVec 64
  sop : BitVec 8
  eop : BitVec 8
  empty : BitVec 8
deriving DecidableEq, Repr

/-- The source tests `eop` as a condition: any nonzero value ends the packet. -/
def Beat.last (beat : Beat) : Bool :=
  beat.eop != 0#8

/-- The source tests `sop` in the same way. -/
def Beat.first (beat : Beat) : Bool :=
  beat.sop != 0#8

end IcmpServer
