import IcmpServer.Elastic.Packets

/-! # Merges of packet streams

A merge of two streams of packets takes whole packets from either, in order.
What remains of a merge is described while no packet is open, and while a packet
of one stream is open and the other stream has to wait.
-/

namespace Elastic

variable {α : Type}

/-- The items of two lists in one list, each list in its own order. -/
inductive Interleaves : List α → List α → List α → Prop
  | nil : Interleaves [] [] []
  | left {item : α} {first second merged : List α} :
      Interleaves first second merged → Interleaves (item :: first) second (item :: merged)
  | right {item : α} {first second merged : List α} :
      Interleaves first second merged → Interleaves first (item :: second) (item :: merged)

namespace Interleaves

variable {first second merged : List α}

theorem symm (hmerged : Interleaves first second merged) : Interleaves second first merged := by
  induction hmerged with
  | nil => exact .nil
  | left _ ih => exact .right ih
  | right _ ih => exact .left ih

/-- One list may be taken as a whole before the other. -/
theorem append (first second : List α) : Interleaves first second (first ++ second) := by
  induction first with
  | nil =>
      induction second with
      | nil => exact .nil
      | cons item rest ih => exact .right ih
  | cons item rest ih => exact .left ih

/-- Two merges in a row. -/
theorem concat {later other rest : List α} (hmerged : Interleaves first second merged)
    (hrest : Interleaves later other rest) :
    Interleaves (first ++ later) (second ++ other) (merged ++ rest) := by
  induction hmerged with
  | nil => exact hrest
  | left _ ih => exact .left ih
  | right _ ih => exact .right ih

/-- One list is found again by what its items have and those of the other do not. -/
theorem filter_eq (hmerged : Interleaves first second merged) {kind : α → Bool}
    (hfirst : ∀ item ∈ first, kind item = false) (hsecond : ∀ item ∈ second, kind item = true) :
    merged.filter kind = second := by
  induction hmerged with
  | nil => rfl
  | left _ ih =>
      obtain ⟨hitem, hrest⟩ := List.forall_mem_cons.mp hfirst
      rw [List.filter_cons, if_neg (by simp [hitem]), ih hrest hsecond]
  | right _ ih =>
      obtain ⟨hitem, hrest⟩ := List.forall_mem_cons.mp hsecond
      rw [List.filter_cons, if_pos hitem, ih hfirst hrest]

theorem perm (hmerged : Interleaves first second merged) : merged.Perm (first ++ second) := by
  induction hmerged with
  | nil => exact .nil
  | left _ ih => exact ih.cons _
  | right _ ih => exact (ih.cons _).trans List.perm_middle.symm

end Interleaves

variable {last : α → Bool}

/-- A merge of all packets of two streams, written out. -/
def WholeMerge (last : α → Bool) (first second output : List α) : Prop :=
  ∃ merged, Interleaves (packets last first) (packets last second) merged ∧
    output = merged.flatten

/-- The first packet of one stream, then a merge of the packets left. -/
def OpenMerge (last : α → Bool) (current other output : List α) : Prop :=
  ∃ merged, Interleaves (packets last current).tail (packets last other) merged ∧
    output = (packets last current).headD [] ++ merged.flatten

theorem WholeMerge.symm {first second output : List α}
    (hmerge : WholeMerge last first second output) : WholeMerge last second first output := by
  obtain ⟨merged, hmerged, houtput⟩ := hmerge
  exact ⟨merged, hmerged.symm, houtput⟩

theorem exists_wholeMerge (last : α → Bool) (first second : List α) :
    ∃ output, WholeMerge last first second output :=
  ⟨_, _, Interleaves.append _ _, rfl⟩

theorem exists_openMerge (last : α → Bool) (current other : List α) :
    ∃ output, OpenMerge last current other output :=
  ⟨_, _, Interleaves.append _ _, rfl⟩

section Behind

variable {whole others merged : List (List α)} {rest other later : List α}
  (hwhole : ∀ packet ∈ whole, IsPacket last packet)
  (hothers : ∀ packet ∈ others, IsPacket last packet) (hmerged : Interleaves whole others merged)
include hwhole hothers hmerged

/-- Merged packets in front of a merge. -/
theorem WholeMerge.behind (hlater : WholeMerge last rest other later) :
    WholeMerge last (whole.flatten ++ rest) (others.flatten ++ other)
      (merged.flatten ++ later) := by
  obtain ⟨remaining, hremaining, rfl⟩ := hlater
  refine ⟨merged ++ remaining, ?_, by rw [List.flatten_append]⟩
  rw [packets_flatten_append hwhole, packets_flatten_append hothers]
  exact hmerged.concat hremaining

/-- Merged packets and an open one in front of a merge. -/
theorem OpenMerge.behind {piece : List α} (hmore : ∀ item ∈ piece, last item = false)
    (hrest : rest ≠ []) (hlater : OpenMerge last rest other later) :
    WholeMerge last (whole.flatten ++ (piece ++ rest)) (others.flatten ++ other)
      (merged.flatten ++ (piece ++ later)) := by
  obtain ⟨remaining, hremaining, rfl⟩ := hlater
  apply WholeMerge.behind hwhole hothers hmerged
  refine ⟨(piece ++ (packets last rest).headD []) :: remaining, ?_, ?_⟩
  · rw [packets_open hmore hrest]
    exact .left hremaining
  · rw [List.flatten_cons, List.append_assoc]

end Behind

/-- A stream that goes on may open its first packet. -/
theorem OpenMerge.whole {item : α} {rest other output : List α}
    (hmerge : OpenMerge last (item :: rest) other output) :
    WholeMerge last (item :: rest) other output := by
  obtain ⟨merged, hmerged, rfl⟩ := hmerge
  cases hpackets : packets last (item :: rest) with
  | nil => exact absurd (packets_eq_nil hpackets) (by simp)
  | cons packet others =>
      rw [hpackets] at hmerged
      exact ⟨packet :: merged, hpackets ▸ .left hmerged, rfl⟩

/-- The last item of an open packet closes it, any other item leaves it open. -/
theorem OpenMerge.cons {item : α} {rest other output : List α}
    (hwhole : last item = true → WholeMerge last rest other output)
    (hopen : last item = false → OpenMerge last rest other output) :
    OpenMerge last (item :: rest) other (item :: output) := by
  cases hlast : last item with
  | true =>
      obtain ⟨merged, hmerged, rfl⟩ := hwhole hlast
      exact ⟨merged, by simpa [packets_cons_last hlast] using hmerged,
        by simp [packets_cons_last hlast]⟩
  | false =>
      obtain ⟨merged, hmerged, rfl⟩ := hopen hlast
      exact ⟨merged, by simpa [packets_cons_more hlast] using hmerged,
        by simp [packets_cons_more hlast]⟩

end Elastic
