import IcmpServer.Elastic.Lanes
import IcmpServer.TxMerge.Merging

/-! # What the merger has taken

`tx_merge` in front of inputs that still grow. At every moment it has taken whole
packets from its two lanes, and of at most one more the beginning; `port_select`
says from which.
-/

namespace IcmpServer.TxMerge

open Elastic

/-- The lane whose packet is open. -/
def PortSelect.lane : PortSelect → Option Lane
  | .idle => none
  | .arp => some .first
  | .ipv4 => some .second

/-- Beats of a lane not merged yet. -/
def Config.lane (config : Config) : Lane → List Beat
  | .first => config.arp
  | .second => config.ipv4

/-- Of what the lanes have been given so far the first beats are taken, whole packets
and the open one, and sent. -/
def Consumed (given : Lane → List Beat) (config : Config) : Prop :=
  ∃ taken, (∀ lane, given lane = taken lane ++ config.lane lane) ∧
    Progress Beat.last config.state.portSelect.lane taken config.sent

theorem start_consumed : Consumed (fun _ => []) (start [] []) := by
  refine ⟨fun _ => [], ?_, Progress.start Beat.last⟩
  rintro (_ | _) <;> rfl

/-- A beat taken from a lane that no packet of the other one blocks. -/
theorem Consumed.take {given : Lane → List Beat} {config next : Config}
    (hconfig : Consumed given config) (lane : Lane) {beat : Beat}
    (hlane : ∀ other, config.state.portSelect.lane = some other → other = lane)
    (hbeat : config.lane lane = beat :: next.lane lane)
    (hothers : ∀ other, other ≠ lane → next.lane other = config.lane other)
    (hsent : next.sent = config.sent ++ [beat])
    (hport : next.state.portSelect.lane = if beat.last then none else some lane) :
    Consumed given next := by
  obtain ⟨taken, htaken, hprogress⟩ := hconfig
  refine ⟨Function.update taken lane (taken lane ++ [beat]), ?_, ?_⟩
  · intro other
    by_cases hother : other = lane
    · subst hother
      rw [htaken, hbeat, Function.update_self, List.append_assoc]
      rfl
    · rw [htaken, Function.update_of_ne hother, hothers other hother]
  · rw [hsent, hport]
    exact hprogress.take hlane beat

/-- A lane with an open packet has the rest of it when all its packets are complete. -/
theorem lane_ne_nil {given : List Beat} {whole : List (List Beat)} {piece rest : List Beat}
    (hgiven : given = whole.flatten ++ (piece ++ rest)) (hframed : Framed Beat.last given)
    (hmore : ∀ beat ∈ piece, beat.last = false) (hpiece : piece ≠ []) : rest ≠ [] := by
  rintro rfl
  rw [hgiven, List.append_nil] at hframed
  obtain ⟨packet, later, hsplit, hpacket⟩ := hframed.of_append.split hpiece
  obtain ⟨beat, hbeat, hlast⟩ := hpacket.exists_last
  have hmem : beat ∈ piece := hsplit ▸ List.mem_append_left _ hbeat
  exact absurd hlast (by simp [hmore beat hmem])

/-- With complete packets on both lanes this is the account of a merger that had all
of its input waiting. -/
theorem Consumed.accounted {given : Lane → List Beat} {config : Config}
    (hconfig : Consumed given config) (hframed : ∀ lane, Framed Beat.last (given lane)) :
    Accounted (given .first) (given .second) config := by
  obtain ⟨taken, htaken, partialMerge, rfl, hsent, hidle⟩ := hconfig
  have harp := htaken .first
  have hipv4 := htaken .second
  simp only [PartialMerge.taken, List.append_assoc, Config.lane] at harp hipv4
  have hframedArp := harp ▸ hframed .first
  have hframedIpv4 := hipv4 ▸ hframed .second
  have hopenArp : config.state.portSelect = .arp → config.arp ≠ [] := by
    intro hport
    simp only [hport, PortSelect.lane, if_true, reduceCtorEq, false_iff] at harp hidle
    exact lane_ne_nil harp (hframed .first) partialMerge.more hidle
  have hopenIpv4 : config.state.portSelect = .ipv4 → config.ipv4 ≠ [] := by
    intro hport
    simp only [hport, PortSelect.lane, if_true, reduceCtorEq, false_iff] at hipv4 hidle
    exact lane_ne_nil hipv4 (hframed .second) partialMerge.more hidle
  refine ⟨?_, hframedArp.of_append.of_append, hframedIpv4.of_append.of_append, hopenArp,
    hopenIpv4⟩
  intro later hlater
  rw [harp, hipv4, hsent, PartialMerge.output, List.append_assoc]
  cases hport : config.state.portSelect with
  | idle =>
      simp only [hport, PortSelect.lane, reduceCtorEq, if_false, List.nil_append, true_iff,
        Completes] at hidle hlater ⊢
      rw [hidle, List.nil_append]
      exact hlater.behind (partialMerge.isPacket .first) (partialMerge.isPacket .second)
        partialMerge.interleaves
  | arp =>
      simp only [hport, PortSelect.lane, Option.some.injEq, reduceCtorEq, if_false, if_true,
        List.nil_append, Completes] at hlater ⊢
      exact hlater.behind (partialMerge.isPacket .first) (partialMerge.isPacket .second)
        partialMerge.interleaves partialMerge.more (hopenArp hport)
  | ipv4 =>
      simp only [hport, PortSelect.lane, Option.some.injEq, reduceCtorEq, if_false, if_true,
        List.nil_append, Completes] at hlater ⊢
      have hmerge := hlater.behind (partialMerge.isPacket .second) (partialMerge.isPacket .first)
        partialMerge.interleaves.symm partialMerge.more (hopenIpv4 hport)
      exact hmerge.symm

theorem step_consumed {given : Lane → List Beat} (config : Config) (call : Call)
    (hconfig : Consumed given config) : Consumed given (step config call) := by
  cases step_effect config call with
  | arp beat hport harp hipv4 hsent hnext =>
      refine hconfig.take .first ?_ harp ?_ hsent ?_
      · intro other hother
        cases hselect : config.state.portSelect <;> simp_all [PortSelect.lane]
      · rintro (_ | _) hother
        · exact absurd rfl hother
        · exact hipv4
      · rw [hnext]
        cases beat.last <;> rfl
  | ipv4 beat hport hipv4 harp hsent hnext =>
      refine hconfig.take .second ?_ hipv4 ?_ hsent ?_
      · intro other hother
        cases hselect : config.state.portSelect <;> simp_all [PortSelect.lane]
      · rintro (_ | _) hother
        · exact harp
        · exact absurd rfl hother
      · rw [hnext]
        cases beat.last <;> rfl
  | stay harp hipv4 hsent hport =>
      obtain ⟨taken, htaken, hprogress⟩ := hconfig
      refine ⟨taken, ?_, ?_⟩
      · rintro (_ | _)
        · exact (htaken .first).trans (congrArg _ harp.symm)
        · exact (htaken .second).trans (congrArg _ hipv4.symm)
      · rwa [hsent, hport]

/-- More beats at the end of a lane. -/
def feed (config : Config) : Lane → List Beat → Config
  | .first, more => { config with inputArp := config.inputArp ++ more }
  | .second, more => { config with inputIpv4 := config.inputIpv4 ++ more }

theorem feed_lane (config : Config) (lane other : Lane) (more : List Beat) :
    (feed config lane more).lane other =
      config.lane other ++ if other = lane then more else [] := by
  cases lane <;> cases other <;> simp [Config.lane, Config.arp, Config.ipv4, feed]

theorem feed_sent (config : Config) (lane : Lane) (more : List Beat) :
    (feed config lane more).sent = config.sent ∧ (feed config lane more).state = config.state := by
  cases lane <;> exact ⟨rfl, rfl⟩

theorem Consumed.feed {given later : Lane → List Beat} {config : Config}
    (hconfig : Consumed given config) (lane : Lane) (more : List Beat)
    (hlater : ∀ other, later other = given other ++ if other = lane then more else []) :
    Consumed later (feed config lane more) := by
  obtain ⟨taken, htaken, hprogress⟩ := hconfig
  obtain ⟨hsent, hstate⟩ := feed_sent config lane more
  refine ⟨taken, ?_, ?_⟩
  · intro other
    rw [feed_lane, ← List.append_assoc, ← htaken other, hlater other]
  · rwa [hsent, hstate]

end IcmpServer.TxMerge
