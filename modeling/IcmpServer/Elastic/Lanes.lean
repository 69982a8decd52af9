import IcmpServer.Elastic.Merge
import Mathlib.Logic.Function.Basic

/-! # A merge in progress

What a merger has taken from its two lanes are whole packets and the beginning of
one more, and what it has sent are these packets in some order with the open one
behind them. The description does not depend on what the lanes still hold, so it
goes on while they are written.
-/

namespace Elastic

/-- The two inputs of a merger. -/
inductive Lane
  | first
  | second
deriving DecidableEq, Repr

variable {α : Type} {last : α → Bool}

/-- The last item merged came from this lane. -/
theorem Interleaves.push {whole : Lane → List α} {merged : List α}
    (hmerged : Interleaves (whole .first) (whole .second) merged) (lane : Lane) (item : α) :
    Interleaves (Function.update whole lane (whole lane ++ [item]) .first)
      (Function.update whole lane (whole lane ++ [item]) .second) (merged ++ [item]) := by
  have hleft : ∀ {first second merged : List α}, Interleaves first second merged →
      Interleaves (first ++ [item]) second (merged ++ [item]) := by
    intro first second merged hmerged
    induction hmerged with
    | nil => exact .left .nil
    | left _ ih => exact .left ih
    | right _ ih => exact .right ih
  cases lane with
  | first => simpa using hleft hmerged
  | second => simpa using (hleft hmerged.symm).symm

/-- Whole packets of two lanes in some order, and the beginning of one more. -/
structure PartialMerge (last : α → Bool) where
  whole : Lane → List (List α)
  merged : List (List α)
  piece : List α
  isPacket : ∀ lane, ∀ packet ∈ whole lane, IsPacket last packet
  interleaves : Interleaves (whole .first) (whole .second) merged
  more : ∀ item ∈ piece, last item = false

namespace PartialMerge

variable (partialMerge : PartialMerge last)

/-- What was taken from a lane, the open packet from the current one. -/
def taken (current : Option Lane) (lane : Lane) : List α :=
  (partialMerge.whole lane).flatten ++ if current = some lane then partialMerge.piece else []

def output : List α :=
  partialMerge.merged.flatten ++ partialMerge.piece

theorem isPacket_merged : ∀ packet ∈ partialMerge.merged, IsPacket last packet := by
  intro packet hmem
  rcases List.mem_append.mp (partialMerge.interleaves.perm.subset hmem) with hmem | hmem
  · exact partialMerge.isPacket .first packet hmem
  · exact partialMerge.isPacket .second packet hmem

theorem completed_output : completed last partialMerge.output = partialMerge.merged :=
  completed_flatten_append partialMerge.isPacket_merged partialMerge.more

def empty (last : α → Bool) : PartialMerge last :=
  ⟨fun _ => [], [], [], by simp, .nil, by simp⟩

/-- The open packet goes on. -/
def pushMore {item : α} (hlast : last item = false) : PartialMerge last :=
  { partialMerge with
    piece := partialMerge.piece ++ [item]
    more := by
      intro other hother
      rcases List.mem_append.mp hother with hother | hother
      · exact partialMerge.more other hother
      · rwa [List.mem_singleton.mp hother] }

/-- The open packet ends. -/
def pushLast (lane : Lane) {item : α} (hlast : last item = true) : PartialMerge last where
  whole := Function.update partialMerge.whole lane
    (partialMerge.whole lane ++ [partialMerge.piece ++ [item]])
  merged := partialMerge.merged ++ [partialMerge.piece ++ [item]]
  piece := []
  isPacket := by
    have hpacket : IsPacket last (partialMerge.piece ++ [item]) :=
      IsPacket.append partialMerge.more (.final hlast)
    intro other packet hmem
    by_cases hother : other = lane
    · subst hother
      rw [Function.update_self] at hmem
      rcases List.mem_append.mp hmem with hmem | hmem
      · exact partialMerge.isPacket other packet hmem
      · rwa [List.mem_singleton.mp hmem]
    · rw [Function.update_of_ne hother] at hmem
      exact partialMerge.isPacket other packet hmem
  interleaves := partialMerge.interleaves.push lane _
  more := by simp

end PartialMerge

/-- Items taken from two lanes and sent: whole packets, and of one more as much as the
current lane has given. -/
def Progress (last : α → Bool) (current : Option Lane) (taken : Lane → List α)
    (output : List α) : Prop :=
  ∃ partialMerge : PartialMerge last, taken = partialMerge.taken current ∧
    output = partialMerge.output ∧ (current = none ↔ partialMerge.piece = [])

namespace Progress

variable {current : Option Lane} {taken : Lane → List α} {output : List α}

theorem start (last : α → Bool) : Progress last none (fun _ => []) [] :=
  ⟨PartialMerge.empty last, by funext lane; rfl, rfl, Iff.intro (fun _ => rfl) fun _ => rfl⟩

/-- An item taken while no packet of the other lane is open. -/
theorem take (hprogress : Progress last current taken output) {lane : Lane}
    (hlane : ∀ other, current = some other → other = lane) (item : α) :
    Progress last (if last item then none else some lane)
      (Function.update taken lane (taken lane ++ [item])) (output ++ [item]) := by
  obtain ⟨partialMerge, rfl, rfl, hidle⟩ := hprogress
  have hpiece : ∀ other, other ≠ lane →
      (if current = some other then partialMerge.piece else []) = [] :=
    fun other hother => if_neg fun hcurrent => hother (hlane other hcurrent)
  have hopen : (if current = some lane then partialMerge.piece else []) =
      partialMerge.piece := by
    cases current with
    | none => rw [hidle.mp rfl, ite_self]
    | some other => rw [hlane other rfl, if_pos rfl]
  cases hlast : last item with
  | true =>
      refine ⟨partialMerge.pushLast lane hlast, ?_, ?_, Iff.intro (fun _ => rfl) fun _ => rfl⟩
      · funext other
        by_cases hother : other = lane
        · subst hother
          simp only [PartialMerge.taken, PartialMerge.pushLast, hopen]
          simp
        · simp [PartialMerge.taken, PartialMerge.pushLast, hother, hpiece other hother]
      · simp [PartialMerge.output, PartialMerge.pushLast]
  | false =>
      refine ⟨partialMerge.pushMore hlast, ?_, ?_, by simp [PartialMerge.pushMore]⟩
      · funext other
        by_cases hother : other = lane
        · subst hother
          simp only [PartialMerge.taken, PartialMerge.pushMore, hopen]
          simp
        · simp [PartialMerge.taken, PartialMerge.pushMore, hother, hpiece other hother,
            Ne.symm hother]
      · simp [PartialMerge.output, PartialMerge.pushMore]

end Progress

end Elastic
