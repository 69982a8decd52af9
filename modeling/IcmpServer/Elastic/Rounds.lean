import Mathlib.Data.List.Basic
import Mathlib.Logic.Relation

/-! # Progress in rounds

A system whose steps either change nothing or decrease a measure reaches its
goal after finitely many rounds, provided every round contains a step that
changes each unfinished state. Which step that is may depend on the state, and
a round may contain any other steps in any order.
-/

namespace Elastic

variable {σ κ : Type} {step : σ → κ → σ} {inv : σ → Prop}

/-- A predicate kept by every step is kept by every schedule. -/
theorem foldl_invariant (hstep : ∀ state action, inv state → inv (step state action))
    (schedule : List κ) (state : σ) (hstate : inv state) :
    inv (schedule.foldl step state) := by
  induction schedule generalizing state with
  | nil => exact hstate
  | cons action rest ih => exact ih _ (hstep state action hstate)

/-- If an abstract system can follow every step or need not follow it, it can follow
every schedule. -/
theorem foldl_refines {τ : Type} {next : τ → τ → Prop} (abstraction : σ → τ)
    (hinv : ∀ state action, inv state → inv (step state action))
    (hnext : ∀ state action, inv state →
      Relation.ReflGen next (abstraction state) (abstraction (step state action)))
    (schedule : List κ) (state : σ) (hstate : inv state) :
    Relation.ReflTransGen next (abstraction state) (abstraction (schedule.foldl step state)) := by
  induction schedule generalizing state with
  | nil => exact .refl
  | cons action rest ih =>
      exact (hnext state action hstate).to_reflTransGen.trans (ih _ (hinv state action hstate))

/-- Every step of the schedule is taken where it is allowed. -/
def Along (step : σ → κ → σ) (allowed : σ → κ → Prop) : σ → List κ → Prop
  | _, [] => True
  | state, action :: rest => allowed state action ∧ Along step allowed (step state action) rest

instance decidableAlong (step : σ → κ → σ) (allowed : σ → κ → Prop)
    [∀ state action, Decidable (allowed state action)] :
    ∀ state schedule, Decidable (Along step allowed state schedule)
  | _, [] => isTrue trivial
  | state, action :: rest =>
      have : Decidable (Along step allowed (step state action) rest) :=
        decidableAlong step allowed (step state action) rest
      inferInstanceAs
        (Decidable (allowed state action ∧ Along step allowed (step state action) rest))

/-- A predicate kept by every allowed step is kept by a schedule of such steps. -/
theorem Along.invariant {allowed : σ → κ → Prop}
    (hstep : ∀ state action, inv state → allowed state action → inv (step state action))
    {schedule : List κ} {state : σ} (hstate : inv state)
    (halong : Along step allowed state schedule) : inv (schedule.foldl step state) := by
  induction schedule generalizing state with
  | nil => exact hstate
  | cons action rest ih => exact ih (hstep state action hstate halong.1) halong.2

/-- The first steps of such a schedule are such a schedule. -/
theorem Along.of_isPrefix {allowed : σ → κ → Prop} {first schedule : List κ} {state : σ}
    (halong : Along step allowed state schedule) (hfirst : first <+: schedule) :
    Along step allowed state first := by
  obtain ⟨later, rfl⟩ := hfirst
  induction first generalizing state with
  | nil => trivial
  | cons action rest ih => exact ⟨halong.1, ih halong.2⟩

/-- Where every allowed step short of the goal decreases a measure, the goal is
reached within as many steps. -/
theorem exists_reached (step : σ → κ → σ) (inv goal : σ → Prop) (allowed : κ → Prop)
    (measure : σ → Nat)
    (hinv : ∀ state action, inv state → ¬ goal state → allowed action → inv (step state action))
    (hless : ∀ state action, inv state → ¬ goal state → allowed action →
      measure (step state action) < measure state)
    (schedule : List κ) (state : σ) (hstate : inv state)
    (hallowed : ∀ action ∈ schedule, allowed action)
    (hbound : measure state < schedule.length) :
    ∃ soon, soon <+: schedule ∧ goal (soon.foldl step state) := by
  induction schedule generalizing state with
  | nil => simp at hbound
  | cons action rest ih =>
      by_cases hgoal : goal state
      · exact ⟨[], List.nil_prefix, hgoal⟩
      · have haction := hallowed action List.mem_cons_self
        have hmeasure := hless state action hstate hgoal haction
        obtain ⟨soon, hsoon, hreached⟩ := ih (step state action)
          (hinv state action hstate hgoal haction)
          (fun other hother => hallowed other (List.mem_cons_of_mem _ hother))
          (by rw [List.length_cons] at hbound; omega)
        exact ⟨action :: soon, List.cons_prefix_cons.mpr ⟨rfl, hsoon⟩, hreached⟩

/-- A schedule either leaves the state as it was, with every one of its steps
idle there, or ends with a smaller measure. -/
theorem foldl_idle_or_lt {measure : σ → Nat}
    (hinv : ∀ state action, inv state → inv (step state action))
    (hstep : ∀ state action, inv state →
      step state action = state ∨ measure (step state action) < measure state)
    (schedule : List κ) (state : σ) (hstate : inv state) :
    (schedule.foldl step state = state ∧ ∀ action ∈ schedule, step state action = state) ∨
      measure (schedule.foldl step state) < measure state := by
  induction schedule generalizing state with
  | nil => exact Or.inl ⟨rfl, by simp⟩
  | cons action rest ih =>
      have hrest := ih (step state action) (hinv state action hstate)
      rcases hstep state action hstate with hidle | hless
      · rw [hidle] at hrest
        simp only [List.foldl_cons, hidle]
        rcases hrest with ⟨hend, hall⟩ | hless
        · exact Or.inl ⟨hend, by simpa [hidle] using hall⟩
        · exact Or.inr hless
      · apply Or.inr
        rw [List.foldl_cons]
        rcases hrest with ⟨hend, _⟩ | hlater
        · rw [hend]
          exact hless
        · omega

/-- As many rounds as the measure allows suffice, from any state of the
invariant. The goal must be stable, since a round may go on after reaching it. -/
theorem rounds_reach (step : σ → κ → σ) (inv done : σ → Prop) (measure : σ → Nat)
    (round : List κ → Prop)
    (hinv : ∀ state action, inv state → inv (step state action))
    (hstep : ∀ state action, inv state →
      step state action = state ∨ measure (step state action) < measure state)
    (hstable : ∀ state action, inv state → done state → done (step state action))
    (hlive : ∀ state schedule, inv state → ¬ done state → round schedule →
      ∃ action ∈ schedule, step state action ≠ state)
    (rounds : List (List κ)) (hrounds : ∀ schedule ∈ rounds, round schedule)
    (state : σ) (hstate : inv state) (hbound : measure state < rounds.length) :
    done (rounds.flatten.foldl step state) := by
  induction rounds generalizing state with
  | nil => simp at hbound
  | cons schedule rest ih =>
      rw [List.flatten_cons, List.foldl_append]
      have hnext : inv (schedule.foldl step state) := foldl_invariant hinv schedule state hstate
      by_cases hdone : done (schedule.foldl step state)
      · have hboth : ∀ state action, inv state ∧ done state →
            inv (step state action) ∧ done (step state action) :=
          fun state action h => ⟨hinv state action h.1, hstable state action h.1 h.2⟩
        exact (foldl_invariant hboth rest.flatten _ ⟨hnext, hdone⟩).2
      · apply ih (fun other hother => hrounds other (List.mem_cons_of_mem _ hother)) _ hnext
        rcases foldl_idle_or_lt hinv hstep schedule state hstate with ⟨hend, hidle⟩ | hless
        · rw [hend] at hdone
          obtain ⟨action, hmem, hmoves⟩ :=
            hlive state schedule hstate hdone (hrounds schedule List.mem_cons_self)
          exact absurd (hidle action hmem) hmoves
        · simp only [List.length_cons] at hbound
          omega

end Elastic
