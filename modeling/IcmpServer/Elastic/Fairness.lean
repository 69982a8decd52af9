import Mathlib.Data.List.Basic

/-! # Fair schedules

An infinite schedule comes in rounds. Every round takes allowed steps only and meets
every need at least once, in any order and with any further steps between. A system
goes from one predicate to the next when a measure never grows and when, short of the
next predicate, some need makes it smaller. Predicates that allowed steps do not leave
follow one another.
-/

namespace Elastic

variable {σ κ ι τ : Type}

/-- The state after the first rounds of a schedule. -/
def afterRounds (step : σ → κ → σ) (state : σ) (rounds : Nat → List κ) : Nat → σ
  | 0 => state
  | count + 1 => (rounds count).foldl step (afterRounds step state rounds count)

/-- The rounds take allowed steps and meet all needs. -/
structure FairRounds (allowed : κ → Prop) (meets : ι → κ → Prop) (rounds : Nat → List κ) :
    Prop where
  allowed : ∀ count, ∀ action ∈ rounds count, allowed action
  meets : ∀ count need, ∃ action ∈ rounds count, meets need action

/-- No allowed step leaves the predicate. -/
def Lasting (step : σ → κ → σ) (allowed : κ → Prop) (inv : σ → Prop) : Prop :=
  ∀ state action, allowed action → inv state → inv (step state action)

/-- What brings a system from one lasting predicate to the next: a measure, and a view
of the state that tells which need makes it smaller. -/
structure Stage (step : σ → κ → σ) (allowed : κ → Prop) (meets : ι → κ → Prop)
    (inv next : σ → Prop) (τ : Type) where
  measure : σ → Nat
  view : σ → τ
  inv_lasts : Lasting step allowed inv
  next_lasts : Lasting step allowed next
  /-- No step makes the measure larger. -/
  le : ∀ state action, allowed action → inv state →
    measure (step state action) ≤ measure state
  /-- A step that leaves the measure leaves the view. -/
  view_eq : ∀ state action, allowed action → inv state →
    measure (step state action) = measure state → view (step state action) = view state
  /-- Short of the next predicate some need makes progress wherever the view is the
  same. -/
  live : ∀ state, inv state → ¬ next state → ∃ need, ∀ other action, inv other →
    ¬ next other → view other = view state → allowed action → meets need action →
      measure (step other action) < measure other

variable {step : σ → κ → σ} {allowed : κ → Prop} {meets : ι → κ → Prop} {inv next : σ → Prop}

/-- A stage in which one and the same need makes progress. -/
def Stage.ofNeed (need : ι) (measure : σ → Nat) (inv_lasts : Lasting step allowed inv)
    (next_lasts : Lasting step allowed next)
    (le : ∀ state action, allowed action → inv state →
      measure (step state action) ≤ measure state)
    (lt : ∀ state action, allowed action → inv state → ¬ next state → meets need action →
      measure (step state action) < measure state) :
    Stage step allowed meets inv next Unit where
  measure := measure
  view _ := ()
  inv_lasts := inv_lasts
  next_lasts := next_lasts
  le := le
  view_eq _ _ _ _ _ := rfl
  live _ _ _ := ⟨need, fun other action hother hopen _ hallowed hmeets =>
    lt other action hallowed hother hopen hmeets⟩

theorem Lasting.foldl (hlasting : Lasting step allowed inv) {actions : List κ}
    (hactions : ∀ action ∈ actions, allowed action) {state : σ} (hstate : inv state) :
    inv (actions.foldl step state) := by
  induction actions generalizing state with
  | nil => exact hstate
  | cons action rest ih =>
      exact ih (fun other hother => hactions other (List.mem_cons_of_mem _ hother))
        (hlasting state action (hactions action List.mem_cons_self) hstate)

theorem Lasting.afterRounds {rounds : Nat → List κ} (hlasting : Lasting step allowed inv)
    (hrounds : FairRounds allowed meets rounds) {state : σ} {first : Nat}
    (hfirst : inv (afterRounds step state rounds first)) {count : Nat} (hcount : first ≤ count) :
    inv (Elastic.afterRounds step state rounds count) := by
  induction hcount with
  | refl => exact hfirst
  | @step count _ ih => exact hlasting.foldl (hrounds.allowed count) ih

namespace Stage

variable (stage : Stage step allowed meets inv next τ)
include stage

theorem foldl_le {actions : List κ} (hactions : ∀ action ∈ actions, allowed action) {state : σ}
    (hstate : inv state) : stage.measure (actions.foldl step state) ≤ stage.measure state := by
  induction actions generalizing state with
  | nil => exact Nat.le_refl _
  | cons action rest ih =>
      have haction := hactions action List.mem_cons_self
      exact Nat.le_trans (ih (fun other hother => hactions other (List.mem_cons_of_mem _ hother))
        (stage.inv_lasts state action haction hstate)) (stage.le state action haction hstate)

/-- A round in which the need is met that the view asks for. -/
theorem foldl_progress {actions : List κ} (hactions : ∀ action ∈ actions, allowed action)
    {need : ι} (hneed : ∃ action ∈ actions, meets need action) {state : σ} (hstate : inv state)
    (hlive : ∀ other action, inv other → ¬ next other → stage.view other = stage.view state →
      allowed action → meets need action →
        stage.measure (step other action) < stage.measure other) :
    next (actions.foldl step state) ∨
      stage.measure (actions.foldl step state) < stage.measure state := by
  induction actions generalizing state with
  | nil => simp at hneed
  | cons action rest ih =>
      have haction := hactions action List.mem_cons_self
      have hrest : ∀ other ∈ rest, allowed other :=
        fun other hother => hactions other (List.mem_cons_of_mem _ hother)
      have hinv := stage.inv_lasts state action haction hstate
      by_cases hnext : next state
      · exact Or.inl (stage.next_lasts.foldl hactions hnext)
      · rcases Nat.lt_or_eq_of_le (stage.le state action haction hstate) with hless | hsame
        · exact Or.inr (Nat.lt_of_le_of_lt (stage.foldl_le hrest hinv) hless)
        · -- the measure is where it was, and so is the view: the need is met later
          have hview := stage.view_eq state action haction hstate hsame
          obtain ⟨other, hother, hmeets⟩ := hneed
          rcases List.mem_cons.mp hother with rfl | hother
          · exact absurd hsame (Nat.ne_of_lt (hlive state other hstate hnext rfl haction hmeets))
          · rw [hview.symm] at hlive
            have hprogress := ih hrest ⟨other, hother, hmeets⟩ hinv hlive
            rwa [hsame] at hprogress

/-- In a fair schedule every stage is completed. -/
theorem leads {rounds : Nat → List κ} (hrounds : FairRounds allowed meets rounds) {state : σ}
    {first : Nat} (hfirst : inv (afterRounds step state rounds first)) :
    ∃ later, next (afterRounds step state rounds later) := by
  induction hmeasure : stage.measure (afterRounds step state rounds first) using
    Nat.strongRecOn generalizing first with
  | ind measure ih =>
      subst hmeasure
      by_cases hnext : next (afterRounds step state rounds first)
      · exact ⟨first, hnext⟩
      · obtain ⟨need, hlive⟩ := stage.live _ hfirst hnext
        have hinv : inv (afterRounds step state rounds (first + 1)) :=
          stage.inv_lasts.foldl (hrounds.allowed first) hfirst
        rcases stage.foldl_progress (hrounds.allowed first) (hrounds.meets first need) hfirst hlive
          with hdone | hless
        · exact ⟨first + 1, hdone⟩
        · exact ih _ hless hinv rfl

end Stage

/-- The same where one need is enough for all of the stage. -/
theorem leads_of_need (need : ι) (measure : σ → Nat) (inv_lasts : Lasting step allowed inv)
    (next_lasts : Lasting step allowed next)
    (le : ∀ state action, allowed action → inv state →
      measure (step state action) ≤ measure state)
    (lt : ∀ state action, allowed action → inv state → ¬ next state → meets need action →
      measure (step state action) < measure state)
    {rounds : Nat → List κ} (hrounds : FairRounds allowed meets rounds) {state : σ} {first : Nat}
    (hfirst : inv (afterRounds step state rounds first)) :
    ∃ later, next (afterRounds step state rounds later) :=
  (Stage.ofNeed need measure inv_lasts next_lasts le lt).leads hrounds hfirst

end Elastic
