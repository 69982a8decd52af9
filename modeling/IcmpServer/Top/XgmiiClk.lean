import IcmpServer.Elastic.Divider

/-! # The PPS pulses

`top` derives the pulses on which `arp_proc` asks for the gateway from the XGMII clock.
-/

namespace IcmpServer.Top

open Elastic

/-- `xgmii_clk_cnt_r`, `xgmii_clk_hb_r` and `xgmii_clk_hb_1d_r`. There is no reset. -/
structure XgmiiClk extends Divider 27 where
  hb1d : Bool
deriving DecidableEq, Repr

def XgmiiClk.clock (state : XgmiiClk) : XgmiiClk :=
  { toDivider := Divider.clock 78125000#27 state.toDivider, hb1d := state.hb }

/-- The pulse on `pps_in_valid`. -/
def xgmiiClkPps (state : XgmiiClk) : Bool :=
  state.hb && !state.hb1d

theorem iterate_clock_toDivider (state : XgmiiClk) (cycles : Nat) :
    (XgmiiClk.clock^[cycles] state).toDivider =
      (Divider.clock 78125000#27)^[cycles] state.toDivider := by
  induction cycles with
  | zero => rfl
  | succ cycles ih =>
      rw [Function.iterate_succ_apply', Function.iterate_succ_apply', ← ih]
      rfl

/-- A pulse is a rising edge of the heartbeat. -/
theorem xgmiiClkPps_iff (state : XgmiiClk) (cycles : Nat) :
    xgmiiClkPps (XgmiiClk.clock^[cycles + 1] state) = true ↔
      Divider.Rises 78125000#27 state.toDivider cycles := by
  have hb1d : (XgmiiClk.clock^[cycles + 1] state).hb1d =
      (XgmiiClk.clock^[cycles] state).hb := by
    rw [Function.iterate_succ_apply']
    rfl
  rw [xgmiiClkPps, hb1d, Divider.Rises, ← iterate_clock_toDivider, ← iterate_clock_toDivider,
    Bool.and_eq_true, Bool.not_eq_true', and_comm]

/-- From the first clock edge on, whatever the registers hold at power-up, pulses are a
single cycle long and exactly 156250002 cycles apart, the first of them after at most as
many. Before that edge `hb1d` need not be what `hb` was. -/
theorem xgmiiClkPps_periodic (state : XgmiiClk) :
    ∃ first < 156250002, ∀ cycles,
      xgmiiClkPps (XgmiiClk.clock^[cycles + 1] state) = true ↔
        ∃ periods, cycles = first + periods * 156250002 := by
  obtain ⟨first, hfirst, hrises⟩ := Divider.rises_iff 78125000#27 state.toDivider
  refine ⟨first, hfirst, fun cycles => ?_⟩
  rw [xgmiiClkPps_iff, hrises]
  rfl

end IcmpServer.Top
