import IcmpServer.Server.Requests
import IcmpServer.TxMerge.Priority

/-! # ARP frames go first

In the system an ARP beat that has come to `tx_merge` is sent as soon as the packet
being echoed is complete. Whatever the other components do meanwhile, no second echo
comes before it.
-/

namespace IcmpServer.Server

open Elastic Rtl Transmit Receive TxMerge

variable {scfifo : Scfifo} (addresses : ArpProc.Addresses)

/-- To the merger an action is a call, or beats that come in. -/
theorem exists_event (state : State scfifo) (action : Action) :
    ∃ event, (step addresses state action).merge = happen state.merge event := by
  have hnone : state.merge = happen state.merge (.feed .first []) := by
    simp [happen, TxMerge.feed]
  cases action with
  | merge call => exact ⟨.call call, rfl⟩
  | path call => exact ⟨.feed .second _, rfl⟩
  | arp call => exact ⟨.feed .first _, rfl⟩
  | _ => exact ⟨_, hnone⟩

theorem exists_events (actions : List Action) (state : State scfifo) :
    ∃ events : List Event, (run addresses state actions).merge =
      events.foldl happen state.merge := by
  induction actions generalizing state with
  | nil => exact ⟨[], rfl⟩
  | cons action rest ih =>
      obtain ⟨event, hevent⟩ := exists_event addresses state action
      obtain ⟨events, hevents⟩ := ih (step addresses state action)
      exact ⟨event :: events, by rw [List.foldl_cons, ← hevent, ← hevents]; rfl⟩

/-- From the moment an ARP beat is in its register, only the rest of the IPv4 packet
open then can be sent before it. When that is complete the next call that is not
refused sends the beat. -/
theorem server_prefers_arp (state : State scfifo) (beat : Beat)
    (hheld : state.merge.state.stage0Arp = some beat) (actions : List Action) :
    let later := run addresses state actions
    ∃ overtaking, OpenRest state.merge.state.portSelect overtaking ∧
      ((later.merge.sent = state.merge.sent ++ overtaking ∧
          (later.merge.state.portSelect ≠ .ipv4 → ∀ call : TxMerge.Call, call.accept = true →
            (step addresses later (.merge call)).merge.sent =
              state.merge.sent ++ overtaking ++ [beat])) ∨
        state.merge.sent ++ overtaking ++ [beat] <+: later.merge.sent) := by
  intro later
  obtain ⟨events, hevents⟩ := exists_events addresses actions state
  have hmerge : later.merge = events.foldl happen state.merge := hevents
  rcases waits (waiting_refl hheld) events with ⟨overtaking, hwaiting⟩ | ⟨overtaking, hrest, hsent⟩
  · rw [← hmerge] at hwaiting
    exact ⟨overtaking, hwaiting.rest, Or.inl ⟨hwaiting.sent, fun hport _ haccept =>
      hwaiting.takes hport haccept⟩⟩
  · exact ⟨overtaking, hrest, Or.inr (hmerge ▸ hsent)⟩

/-- A ping is being echoed when the second of two replies comes to the merger. -/
theorem server_prefers_arp_test :
    let state := run .default (start Scfifo.list [])
      (testActions (testPing ++ testArpRequest ++ testArpRequest) 9)
    let beat := ArpProc.replyBeat .default
      ⟨0x01#8, 0x060000000001#48, 0xc0a80205#32, 0xc0a80264#32⟩ 0
    let actions := List.replicate 12 (.merge ⟨true, true, true⟩)
    state.merge.state.portSelect = .ipv4 ∧
      let later := run .default state actions
      ∃ overtaking, OpenRest state.merge.state.portSelect overtaking ∧
        ((later.merge.sent = state.merge.sent ++ overtaking ∧
            (later.merge.state.portSelect ≠ .ipv4 → ∀ call : TxMerge.Call, call.accept = true →
              (step .default later (.merge call)).merge.sent =
                state.merge.sent ++ overtaking ++ [beat])) ∨
          state.merge.sent ++ overtaking ++ [beat] <+: later.merge.sent) := by
  intro state beat actions
  exact ⟨by decide +kernel, server_prefers_arp .default state beat (by decide +kernel) actions⟩

end IcmpServer.Server
