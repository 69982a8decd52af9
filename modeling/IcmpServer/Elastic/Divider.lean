import Mathlib.Algebra.Order.Group.Nat
import Mathlib.Data.Nat.Basic
import Mathlib.Logic.Function.Iterate
import Mathlib.Tactic.Ring

/-! # Clock dividers

A counter runs up to a limit and starts again at zero, inverting a bit. Whatever it
starts from, the rising edges of the bit are a fixed number of clock edges apart.
-/

namespace Elastic

/-- The counter and the bit. -/
structure Divider (width : Nat) where
  cnt : BitVec width
  hb : Bool
deriving DecidableEq, Repr

namespace Divider

variable {width : Nat} (limit : BitVec width)

def clock (state : Divider width) : Divider width :=
  if state.cnt < limit then { state with cnt := state.cnt + BitVec.ofNat width 1 }
  else { cnt := BitVec.zero width, hb := !state.hb }

/-- Clock edges before the one that inverts the bit. -/
def left (state : Divider width) : Nat :=
  limit.toNat - state.cnt.toNat

/-- Up to the limit the counter counts. -/
theorem iterate_clock_keeps (state : Divider width) {count : Nat}
    (hcount : count ≤ left limit state) :
    ((clock limit)^[count] state).hb = state.hb ∧
      ((clock limit)^[count] state).cnt.toNat = state.cnt.toNat + count := by
  induction count with
  | zero => exact ⟨rfl, rfl⟩
  | succ count ih =>
      obtain ⟨hhb, hcnt⟩ := ih (Nat.le_of_succ_le hcount)
      have hwide := limit.isLt
      rw [left] at hcount
      have hless : ((clock limit)^[count] state).cnt < limit := by
        rw [BitVec.lt_def, hcnt]
        omega
      rw [Function.iterate_succ_apply', clock, if_pos hless]
      refine ⟨hhb, ?_⟩
      rw [BitVec.toNat_add, hcnt, BitVec.toNat_ofNat, Nat.add_mod_mod]
      exact Nat.mod_eq_of_lt (by omega)

/-- At the limit, or above it, the bit is inverted. -/
theorem iterate_clock_wraps (state : Divider width) :
    (clock limit)^[left limit state + 1] state = ⟨BitVec.zero width, !state.hb⟩ := by
  obtain ⟨hhb, hcnt⟩ := iterate_clock_keeps limit state (Nat.le_refl _)
  have hlimit : ¬ ((clock limit)^[left limit state] state).cnt < limit := by
    rw [BitVec.lt_def, hcnt, left]
    omega
  rw [Function.iterate_succ_apply', clock, if_neg hlimit, hhb]

/-- From zero on the bit is inverted every `limit + 1` clock edges. -/
theorem iterate_clock_zero (hb : Bool) (count : Nat) :
    ((clock limit)^[count] ⟨BitVec.zero width, hb⟩).hb =
      (hb ^^ decide (count / (limit.toNat + 1) % 2 = 1)) := by
  have hleft : ∀ hb, left limit (⟨BitVec.zero width, hb⟩ : Divider width) = limit.toNat := by
    simp [left]
  induction count using Nat.strong_induction_on generalizing hb with
  | h count ih =>
      rcases Nat.lt_or_ge count (limit.toNat + 1) with hbefore | hbehind
      · have hkeeps := (iterate_clock_keeps limit ⟨BitVec.zero width, hb⟩
          ((Nat.le_of_lt_succ hbefore).trans (Nat.le_of_eq (hleft hb).symm))).1
        rw [hkeeps, Nat.div_eq_of_lt hbefore]
        simp
      · obtain ⟨rest, rfl⟩ := Nat.exists_eq_add_of_le hbehind
        have hwraps := iterate_clock_wraps limit ⟨BitVec.zero width, hb⟩
        rw [hleft] at hwraps
        rw [Nat.add_comm, Function.iterate_add_apply, hwraps, ih rest (by omega),
          Nat.add_div_right _ (Nat.succ_pos _)]
        cases hb <;> rcases Nat.mod_two_eq_zero_or_one (rest / (limit.toNat + 1)) with heven | hodd
        all_goals simp [*, Nat.add_mod]

/-- A rising edge of the bit. -/
def Rises (state : Divider width) (count : Nat) : Prop :=
  ((clock limit)^[count] state).hb = false ∧ ((clock limit)^[count + 1] state).hb = true

/-- Behind the first time that the bit is inverted. -/
theorem rises_add_iff (state : Divider width) (count : Nat) :
    Rises limit state (left limit state + count) ↔
      limit.toNat + 1 ∣ count ∧ count / (limit.toNat + 1) % 2 = state.hb.toNat := by
  have hwraps := iterate_clock_wraps limit state
  have hnext : (clock limit)^[left limit state + count + 1] state =
      (clock limit)^[count] ⟨BitVec.zero width, !state.hb⟩ := by
    rw [← hwraps, ← Function.iterate_add_apply]
    congr 1
    omega
  rw [Rises, hnext, iterate_clock_zero]
  cases count with
  | zero =>
      rw [Nat.add_zero, (iterate_clock_keeps limit state (Nat.le_refl _)).1]
      cases state.hb <;> simp
  | succ count =>
      have hsame : (clock limit)^[left limit state + (count + 1)] state =
          (clock limit)^[count] ⟨BitVec.zero width, !state.hb⟩ := by
        rw [← hwraps, ← Function.iterate_add_apply]
        congr 1
        omega
      rw [hsame, iterate_clock_zero, Nat.succ_div]
      by_cases hdvd : limit.toNat + 1 ∣ count + 1
      · rw [if_pos hdvd]
        generalize count / (limit.toNat + 1) = quotient
        cases state.hb <;> rcases Nat.mod_two_eq_zero_or_one quotient with heven | hodd
        all_goals simp [*, Nat.add_mod]
      · -- within a run of the counter the bit is as before
        simp [hdvd]

/-- Whatever the state, the edges are `2 * (limit + 1)` apart from the first one on. -/
theorem rises_iff (state : Divider width) :
    ∃ first < 2 * (limit.toNat + 1), ∀ count, Rises limit state count ↔
      ∃ periods, count = first + periods * (2 * (limit.toNat + 1)) := by
  have hleft : left limit state ≤ limit.toNat := Nat.sub_le _ _
  refine ⟨left limit state + state.hb.toNat * (limit.toNat + 1), ?_, ?_⟩
  · cases state.hb <;> simp <;> omega
  · intro count
    rcases Nat.lt_or_ge count (left limit state) with hbefore | hbehind
    · constructor
      · rintro ⟨hlow, hhigh⟩
        rw [(iterate_clock_keeps limit state (Nat.le_of_lt hbefore)).1] at hlow
        rw [(iterate_clock_keeps limit state hbefore).1, hlow] at hhigh
        contradiction
      · rintro ⟨periods, hcount⟩
        omega
    · obtain ⟨rest, rfl⟩ := Nat.exists_eq_add_of_le hbehind
      rw [rises_add_iff]
      constructor
      · rintro ⟨⟨halves, rfl⟩, hparity⟩
        rw [Nat.mul_div_cancel_left _ (Nat.succ_pos _)] at hparity
        refine ⟨halves / 2, ?_⟩
        have hhalves : halves = state.hb.toNat + halves / 2 * 2 := by omega
        nth_rewrite 1 [hhalves]
        ring
      · rintro ⟨periods, hcount⟩
        have hrest : rest = (limit.toNat + 1) * (state.hb.toNat + 2 * periods) := by
          apply Nat.add_left_cancel (hcount.trans _)
          ring
        rw [hrest, Nat.mul_div_cancel_left _ (Nat.succ_pos _)]
        refine ⟨Dvd.intro _ rfl, ?_⟩
        cases state.hb <;> simp [Nat.add_mod]

end Divider

end Elastic
