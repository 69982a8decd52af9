import Mathlib.Data.List.Basic

/-! # Countdowns

A counter is set to its lifetime by a reload and counts the pulses down to zero.
Before the first reload it is zero. What it shows is a function of the events
behind the last reload.
-/

namespace Elastic

variable {α : Type} (reload pulse : α → Bool) (lifetime : Nat)

/-- The pulses in the events behind the last reload, if there was one. -/
def sinceReload (log : List α) : Option Nat :=
  if log.any reload then
    some ((log.reverse.takeWhile fun event => !reload event).countP pulse)
  else none

/-- What a countdown shows after the events. -/
def remaining (log : List α) : Nat :=
  (sinceReload reload pulse log).elim 0 fun pulses => lifetime - pulses

/-- A lifetime of pulses has passed since the last reload. -/
def Expired (log : List α) : Prop :=
  ∀ pulses ∈ sinceReload reload pulse log, lifetime ≤ pulses

theorem sinceReload_append_singleton (log : List α) (event : α) :
    sinceReload reload pulse (log ++ [event]) =
      if reload event then some 0
      else (sinceReload reload pulse log).map (· + (pulse event).toNat) := by
  cases hreload : reload event with
  | true => simp [sinceReload, hreload]
  | false =>
      cases hpulse : pulse event <;> by_cases hany : log.any reload = true <;>
        simp_all [sinceReload]

/-- A reload sets the countdown, a pulse in another event counts it down. -/
theorem remaining_append_singleton (log : List α) (event : α) :
    remaining reload pulse lifetime (log ++ [event]) =
      if reload event then lifetime
      else remaining reload pulse lifetime log - (pulse event).toNat := by
  rw [remaining, sinceReload_append_singleton, remaining]
  cases reload event with
  | true => rfl
  | false =>
      cases sinceReload reload pulse log with
      | none => exact (Nat.zero_sub _).symm
      | some pulses => exact (Nat.sub_sub _ _ _).symm

/-- It shows zero when it has expired, and before the first reload. -/
theorem remaining_eq_zero_iff (log : List α) :
    remaining reload pulse lifetime log = 0 ↔ Expired reload pulse lifetime log := by
  rw [remaining, Expired]
  cases sinceReload reload pulse log with
  | none => simp
  | some pulses => simp [Nat.sub_eq_zero_iff_le]

end Elastic
