import Mathlib.Data.List.Basic

/-! # Accounts of a queue

Items are accepted into a queue in encoded form and leave it converted. At every
moment the accepted items are those that have left and those in the queue.
-/

namespace Elastic

variable {α ω β : Type}

/-- A step of a queue: perhaps the oldest item leaves, and new ones arrive. -/
def queueStep (contents : List ω) (pop : Bool) (arrived : List ω) : List ω :=
  (if pop then contents.tail else contents) ++ arrived

/-- Of the accepted items the first ones were sent, converted and in order, and
the others are in the queue. -/
def Queued (word : α → ω) (convert : α → β) (accepted : List α) (contents : List ω)
    (sent : List β) : Prop :=
  ∃ done queued, accepted = done ++ queued ∧ contents = queued.map word ∧ sent = done.map convert

variable {word : α → ω} {convert : α → β} {accepted : List α} {contents : List ω} {sent : List β}

theorem Queued.nil : Queued word convert [] [] [] :=
  ⟨[], [], rfl, rfl, rfl⟩

/-- What was sent is the conversion of the first accepted items. -/
theorem Queued.sent_isPrefix (hqueued : Queued word convert accepted contents sent) :
    sent <+: accepted.map convert := by
  obtain ⟨done, queued, rfl, -, rfl⟩ := hqueued
  rw [List.map_append]
  exact List.prefix_append _ _

/-- What entered a queue that changes nothing is what has left it and what it holds. -/
theorem Queued.eq_append {accepted contents sent : List α}
    (hqueued : Queued id id accepted contents sent) : accepted = sent ++ contents := by
  obtain ⟨done, queued, rfl, rfl, rfl⟩ := hqueued
  rw [List.map_id, List.map_id]

/-- A queue step keeps the account when what is taken out is sent. -/
theorem Queued.step (hqueued : Queued word convert accepted contents sent) (out : ω → β)
    (hout : ∀ item, out (word item) = convert item) (pop : Bool) (arrived : List α)
    {front : ω} (hfront : pop = true → contents = front :: contents.tail) :
    Queued word convert (accepted ++ arrived) (queueStep contents pop (arrived.map word))
      (sent ++ if pop then [out front] else []) := by
  obtain ⟨done, queued, rfl, rfl, rfl⟩ := hqueued
  cases pop with
  | false => exact ⟨done, queued ++ arrived, by simp, by simp [queueStep], by simp⟩
  | true =>
      obtain ⟨item, rest, rfl, rfl, -⟩ := List.map_eq_cons_iff.mp (hfront rfl)
      exact ⟨done ++ [item], rest ++ arrived, by simp, by simp [queueStep], by simp [hout]⟩

end Elastic
