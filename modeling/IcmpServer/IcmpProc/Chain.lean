import IcmpServer.IcmpProc.ReplyBytes

/-! # The ICMP chain

The four components connected in the order of the system, by lossless streams.
On packets the account of the chain is the reply to each packet in turn.
-/

namespace IcmpServer.IcmpProc

open Elastic

/-- `icmp_proc_swapmac` with its static registers cleared. -/
def swapmac : Process Unit Beat Beat where
  State := SwapState
  init := { inner := none }
  call _ := icmpProcSwapmac

def swapip : Process Unit Beat Beat where
  State := SwapState
  init := { inner := none }
  call _ := icmpProcSwapip

def param : Process Unit Beat Beat where
  State := ParamState
  init := { inner := () }
  call _ := icmpProcParam

def ipv4chksum : Process Unit Beat Beat where
  State := ChksumState
  init := { inner := {} }
  call _ := icmpProcIpv4chksum

/-- The chain: each component reads what the one before it writes. -/
def icmpProc : Process (((Unit ⊕ Unit) ⊕ Unit) ⊕ Unit) Beat Beat :=
  ((swapmac.link swapip).link param).link ipv4chksum

def swapmacAccount : Account swapmac :=
  (macField.account (by decide)).toAccount none

def swapipAccount : Account swapip :=
  (ipField.account (by decide)).toAccount none

def paramComponentAccount : Account param :=
  paramAccount.toAccount ()

def ipv4chksumAccount : Account ipv4chksum :=
  chksumAccount.toAccount {}

/-- A served call is a round of a single component. -/
theorem isRound_component : IsRound ([()].map fun part => ⟨part, true, true⟩) :=
  isRound_map fun _ => List.mem_singleton.mpr rfl

def icmpProcAccount : Account icmpProc :=
  ((swapmacAccount.link swapipAccount).link paramComponentAccount).link ipv4chksumAccount

/-- The four rewritings one after the other, each with its own numbering, from a
value of the checksum register. -/
def chain (checksum : BitVec 24) (input : List Beat) : List Beat :=
  chksumRewrite none checksum (indexed 0#8
    ((indexed 0#8 (ipField.rewrite (indexed 0#8
      (macField.rewrite (indexed 0#8 input))))).map paramRewrite))

/-- From the start the chain computes the four rewritings. -/
theorem icmpProcAccount_computes (input : List Beat) :
    icmpProcAccount.computes input = chain 0#24 input := rfl

/-! ## Packet by packet -/

/-- A rewriting that deals with one packet at a time, whatever it carries over,
acts on every packet of the stream. -/
theorem rewrite_packets {σ : Type} (rewrite : σ → List Beat → List Beat)
    {onPacket : List Beat → List Beat} (hnil : ∀ carried, rewrite carried [] = [])
    (hpacket : ∀ carried packet, Echoable packet →
      ∃ next, ∀ rest, rewrite carried (packet ++ rest) = onPacket packet ++ rewrite next rest)
    (packets : List (List Beat)) (hpackets : ∀ packet ∈ packets, Echoable packet) (carried : σ) :
    rewrite carried packets.flatten = (packets.map onPacket).flatten := by
  induction packets generalizing carried with
  | nil => exact hnil carried
  | cons packet rest ih =>
      obtain ⟨next, hnext⟩ := hpacket carried packet (hpackets _ List.mem_cons_self)
      rw [List.flatten_cons, hnext,
        ih (fun other hother => hpackets other (List.mem_cons_of_mem _ hother)) next]
      rfl

/-- The four rewritings of one stretch. -/
def echoPacket (beats : List Beat) : List Beat :=
  chksumPacket (paramPacket (ipPacket (macPacket beats)))

theorem map_markers_echoPacket (beats : List Beat) :
    (echoPacket beats).map markers = beats.map markers := by
  rw [echoPacket, map_markers_chksumPacket, map_markers_paramPacket, map_markers_ipPacket,
    map_markers_macPacket]

@[simp] theorem length_echoPacket (beats : List Beat) :
    (echoPacket beats).length = beats.length := by
  simpa using congrArg List.length (map_markers_echoPacket beats)

/-- A stretch of any length but 1 and 4 goes through the chain on its own. -/
theorem chain_stretch {beats : List Beat} (hstretch : Stretch beats) (hone : beats.length ≠ 1)
    (hfour : beats.length ≠ 4) (checksum : BitVec 24) :
    ∃ next, ∀ rest, chain checksum (beats ++ rest) = echoPacket beats ++ chain next rest := by
  have hmarkers := map_markers_macPacket beats
  have hmac := hstretch.of_map_last (map_last_of_markers hmarkers)
  have hmacLength : (macPacket beats).length ≠ 4 := by
    rw [← List.length_map (f := markers), hmarkers, List.length_map]
    exact hfour
  have hip := hmac.of_map_last (map_last_of_markers (map_markers_ipPacket (macPacket beats)))
  have hparam := hip.of_map_last
    (map_last_of_markers (map_markers_paramPacket (ipPacket (macPacket beats))))
  have hparamLength : (paramPacket (ipPacket (macPacket beats))).length ≠ 4 := by
    rw [← List.length_map (f := markers), map_markers_paramPacket, map_markers_ipPacket,
      List.length_map]
    exact hmacLength
  obtain ⟨next, hnext⟩ := chksum_stretch hparam hparamLength checksum
  refine ⟨next, ?_⟩
  intro rest
  rw [chain, macField_stretch hstretch hone, ipField_stretch hmac hmacLength, param_stretch hip,
    hnext]
  rfl

/-- The chain computes the replies. -/
theorem icmpProcAccount_replies (packets : List (List Beat))
    (hpackets : ∀ packet ∈ packets, Echoable packet) :
    icmpProcAccount.computes packets.flatten = (packets.map reply).flatten := by
  rw [icmpProcAccount_computes]
  refine rewrite_packets chain (fun _ => rfl) ?_ packets hpackets 0#24
  intro checksum packet hpacket
  have hlength := hpacket.2.1
  rw [← components_reply hlength]
  exact chain_stretch hpacket.stretch (by omega) (by omega) checksum

/-- Whatever the schedule, the chain has written a prefix of the replies to its
packets in order, and rounds without refusals write all of them. -/
theorem icmpProc_replies (packets : List (List Beat))
    (hpackets : ∀ packet ∈ packets, Echoable packet) (schedule : List (Call _)) :
    (icmpProc.run (icmpProc.start packets.flatten) schedule).output <+:
        (packets.map reply).flatten ∧
      ∃ bound, ∀ rounds : List (List (Call _)), bound ≤ rounds.length →
        (∀ round ∈ rounds, IsRound round) →
        (icmpProc.run (icmpProc.run (icmpProc.start packets.flatten) schedule)
          rounds.flatten).output = (packets.map reply).flatten := by
  rw [← icmpProcAccount_replies packets hpackets]
  exact ⟨icmpProcAccount.output_isPrefix _ schedule, icmpProcAccount.output_complete _ schedule⟩

/-- The request of the source's testbench. -/
def testIcmpReq : List Beat :=
  [⟨0x00005e00016654bf#64, 1#8, 0#8, 0#8⟩,
    ⟨0x648042d808004500#64, 0#8, 0#8, 0#8⟩,
    ⟨0x003c02de00008001#64, 0#8, 0#8, 0#8⟩,
    ⟨0x0000ac1f18873dd3#64, 0#8, 0#8, 0#8⟩,
    ⟨0xe204080030f50001#64, 0#8, 0#8, 0#8⟩,
    ⟨0x1c66616263646566#64, 0#8, 0#8, 0#8⟩,
    ⟨0x6768696a6b6c6d6e#64, 0#8, 0#8, 0#8⟩,
    ⟨0x6f70717273747576#64, 0#8, 0#8, 0#8⟩,
    ⟨0x7761626364656667#64, 0#8, 0#8, 0#8⟩,
    ⟨0x6869000000000000#64, 0#8, 1#8, 6#8⟩]

theorem icmpProc_replies_test :
    (∀ packet ∈ [testIcmpReq, testIcmpReq], Echoable packet) ∧
      ∃ bound, ∀ rounds : List (List (Call _)), bound ≤ rounds.length →
        (∀ round ∈ rounds, IsRound round) →
        (icmpProc.run (icmpProc.run (icmpProc.start [testIcmpReq, testIcmpReq].flatten) [])
          rounds.flatten).output = reply testIcmpReq ++ reply testIcmpReq := by
  have hpackets : ∀ packet ∈ [testIcmpReq, testIcmpReq], Echoable packet := by
    simpa [Echoable] using by decide
  exact ⟨hpackets, (icmpProc_replies [testIcmpReq, testIcmpReq] hpackets []).2⟩

end IcmpServer.IcmpProc
