import Mathlib.Data.List.Basic

/-! # Packets in a stream

A stream of items is cut into packets after each item marked as last. The cut is
defined for every stream; what follows the final mark is an incomplete packet.
-/

namespace Elastic

variable {α β : Type}

/-- A complete packet is marked at its final item and nowhere else. -/
inductive IsPacket (last : α → Bool) : List α → Prop
  | final {item : α} : last item = true → IsPacket last [item]
  | more {item : α} {rest : List α} :
      last item = false → IsPacket last rest → IsPacket last (item :: rest)

/-- The packets of a stream, the final one possibly incomplete. -/
def packets (last : α → Bool) : List α → List (List α)
  | [] => []
  | item :: rest =>
      if last item then [item] :: packets last rest
      else
        match packets last rest with
        | [] => [[item]]
        | packet :: others => (item :: packet) :: others

namespace IsPacket

variable {last : α → Bool} {packet : List α}

theorem ne_nil (hpacket : IsPacket last packet) : packet ≠ [] := by
  cases hpacket <;> simp

/-- Being a packet depends on the marks only. -/
theorem of_map_eq {mark : β → Bool} (hpacket : IsPacket last packet) {other : List β}
    (hmarks : other.map mark = packet.map last) : IsPacket mark other := by
  induction hpacket generalizing other with
  | final hlast =>
      obtain ⟨item, rest, rfl, hitem, hrest⟩ := List.map_eq_cons_iff.mp hmarks
      obtain rfl := List.map_eq_nil_iff.mp hrest
      exact .final (hitem.trans hlast)
  | more hlast _ ih =>
      obtain ⟨item, rest, rfl, hitem, hrest⟩ := List.map_eq_cons_iff.mp hmarks
      exact .more (hitem.trans hlast) (ih hrest)

/-- A packet cannot end inside another one. -/
theorem length_eq_of_isPrefix (hpacket : IsPacket last packet) {whole : List α}
    (hwhole : IsPacket last whole) (hmarks : packet.map last <+: whole.map last) :
    packet.length = whole.length := by
  induction hpacket generalizing whole with
  | @final item hlast =>
      cases hwhole with
      | final _ => rfl
      | more hmore _ =>
          have hsame := (List.cons_prefix_cons.mp hmarks).1
          simp [hlast, hmore] at hsame
  | @more item rest hmore _ ih =>
      cases hwhole with
      | final hlast =>
          have hsame := (List.cons_prefix_cons.mp hmarks).1
          simp [hlast, hmore] at hsame
      | more _ hrest =>
          rw [List.length_cons, List.length_cons, ih hrest (List.cons_prefix_cons.mp hmarks).2]

/-- Items without a mark in front of a packet belong to it. -/
theorem append {front : List α} (hmore : ∀ item ∈ front, last item = false)
    (hpacket : IsPacket last packet) : IsPacket last (front ++ packet) := by
  induction front with
  | nil => exact hpacket
  | cons item front ih =>
      exact .more (hmore item List.mem_cons_self)
        (ih fun other hother => hmore other (List.mem_cons_of_mem _ hother))

/-- A packet cut before its final item: no mark in front, a packet behind. -/
theorem cut {count : Nat} (hpacket : IsPacket last packet) (hcount : count < packet.length) :
    (∀ item ∈ packet.take count, last item = false) ∧ IsPacket last (packet.drop count) := by
  induction hpacket generalizing count with
  | final hlast =>
      obtain rfl : count = 0 := by simpa using hcount
      exact ⟨by simp, .final hlast⟩
  | more hlast hrest ih =>
      cases count with
      | zero => exact ⟨by simp, .more hlast hrest⟩
      | succ count =>
          obtain ⟨hfront, hback⟩ := ih (by simpa using hcount)
          exact ⟨by simpa [hlast] using hfront, hback⟩

/-- A packet has its mark. -/
theorem exists_last (hpacket : IsPacket last packet) : ∃ item ∈ packet, last item = true := by
  induction hpacket with
  | final hlast => exact ⟨_, List.mem_cons_self, hlast⟩
  | more _ _ ih =>
      obtain ⟨item, hitem, hlast⟩ := ih
      exact ⟨item, List.mem_cons_of_mem _ hitem, hlast⟩

/-- A packet has no other mark. -/
theorem countP_eq (hpacket : IsPacket last packet) : packet.countP last = 1 := by
  induction hpacket with
  | final hlast => simp [hlast]
  | more hlast _ ih => simpa [hlast] using ih

/-- A list marked at its final item alone is a packet. -/
theorem of_getElem? {items : List α} (hne : items ≠ [])
    (hmarks : ∀ (index : Nat) (item : α), items[index]? = some item →
      last item = decide (index + 1 = items.length)) : IsPacket last items := by
  induction items with
  | nil => exact absurd rfl hne
  | cons item rest ih =>
      have hfirst := hmarks 0 item rfl
      cases rest with
      | nil => exact final hfirst
      | cons next others =>
          refine more (hfirst.trans (decide_eq_false (by simp))) (ih (by simp) ?_)
          intro index item hitem
          simpa using hmarks (index + 1) item hitem

/-- A packet in front of a stream is its first packet. -/
theorem packets_append (hpacket : IsPacket last packet) (rest : List α) :
    packets last (packet ++ rest) = packet :: packets last rest := by
  induction hpacket with
  | final hlast => simp [packets, hlast]
  | more hlast _ ih => simp [packets, hlast, ih]

end IsPacket

/-- The mark decides whether a packet ends or goes on. -/
theorem isPacket_cons {last : α → Bool} {item : α} {rest : List α} :
    IsPacket last (item :: rest) ↔ if last item then rest = [] else IsPacket last rest := by
  constructor
  · intro hpacket
    cases hpacket with
    | final hlast => simp [hlast]
    | more hlast hrest => simpa [hlast] using hrest
  · intro hpacket
    cases hlast : last item with
    | true =>
        obtain rfl : rest = [] := by simpa [hlast] using hpacket
        exact .final hlast
    | false => exact .more hlast (by simpa [hlast] using hpacket)

instance decidableIsPacket (last : α → Bool) : ∀ items, Decidable (IsPacket last items)
  | [] => isFalse fun hpacket => hpacket.ne_nil rfl
  | _ :: rest =>
      have : Decidable (IsPacket last rest) := decidableIsPacket last rest
      match rest with
      | [] => decidable_of_iff _ isPacket_cons.symm
      | _ :: _ => decidable_of_iff _ isPacket_cons.symm

variable {last : α → Bool}

/-- A concatenation of packets is cut into those packets. -/
theorem packets_flatten (stream : List (List α))
    (hstream : ∀ packet ∈ stream, IsPacket last packet) :
    packets last stream.flatten = stream := by
  induction stream with
  | nil => rfl
  | cons packet rest ih =>
      rw [List.flatten_cons, (hstream packet List.mem_cons_self).packets_append,
        ih fun other hother => hstream other (List.mem_cons_of_mem _ hother)]

/-- Packets in front of a stream are its first packets. -/
theorem packets_flatten_append {whole : List (List α)}
    (hwhole : ∀ packet ∈ whole, IsPacket last packet) (rest : List α) :
    packets last (whole.flatten ++ rest) = whole ++ packets last rest := by
  induction whole with
  | nil => rfl
  | cons packet others ih =>
      rw [List.flatten_cons, List.append_assoc,
        (hwhole packet List.mem_cons_self).packets_append,
        ih fun other hother => hwhole other (List.mem_cons_of_mem _ hother)]
      rfl

/-- Cutting a stream loses nothing. -/
theorem flatten_packets (last : α → Bool) (stream : List α) :
    (packets last stream).flatten = stream := by
  induction stream with
  | nil => rfl
  | cons item rest ih =>
      unfold packets
      split_ifs with hlast
      · simp [ih]
      · split
        next hnone => simpa [hnone] using ih
        next packet others hsome => simpa [hsome] using ih

theorem packets_eq_nil {stream : List α} (hnone : packets last stream = []) : stream = [] := by
  rw [← flatten_packets last stream, hnone]
  rfl

theorem packets_cons_last {item : α} (hlast : last item = true) (rest : List α) :
    packets last (item :: rest) = [item] :: packets last rest := by
  simp [packets, hlast]

/-- An item that is not last belongs to the packet of the items behind it. -/
theorem packets_cons_more {item : α} (hlast : last item = false) (rest : List α) :
    packets last (item :: rest) =
      (item :: (packets last rest).headD []) :: (packets last rest).tail := by
  cases hrest : packets last rest <;> simp [packets, hlast, hrest]

/-- Items without a mark are one incomplete packet, or none. -/
theorem packets_unmarked {stream : List α} (hmore : ∀ item ∈ stream, last item = false) :
    packets last stream = if stream = [] then [] else [stream] := by
  induction stream with
  | nil => rfl
  | cons item rest ih =>
      rw [packets_cons_more (hmore item List.mem_cons_self),
        ih fun other hother => hmore other (List.mem_cons_of_mem _ hother)]
      by_cases hrest : rest = [] <;> simp [hrest]

/-- Items without a mark belong to the packet of the items behind them. -/
theorem packets_open {piece rest : List α} (hmore : ∀ item ∈ piece, last item = false)
    (hrest : rest ≠ []) :
    packets last (piece ++ rest) =
      (piece ++ (packets last rest).headD []) :: (packets last rest).tail := by
  induction piece with
  | nil =>
      cases hpackets : packets last rest with
      | nil => exact absurd (packets_eq_nil hpackets) hrest
      | cons packet others => simp [hpackets]
  | cons item piece ih =>
      have hopen := ih fun other hother => hmore other (List.mem_cons_of_mem _ hother)
      rw [List.cons_append, packets_cons_more (hmore item List.mem_cons_self), hopen]
      rfl

theorem getElem?_packets_unmarked {sent packet : List α} {index : Nat}
    (hmore : ∀ item ∈ sent, last item = false)
    (hpacket : (packets last sent)[index]? = some packet) : index = 0 ∧ packet = sent := by
  rw [packets_unmarked hmore] at hpacket
  split_ifs at hpacket with hnil
  · simp at hpacket
  · cases index with
    | zero => simpa [eq_comm] using hpacket
    | succ index => simp at hpacket

/-- Packets, the final one possibly cut short before its mark. -/
inductive CutShort (last : α → Bool) : List (List α) → Prop
  | nil : CutShort last []
  | short {piece : List α} : (∀ item ∈ piece, last item = false) → CutShort last [piece]
  | cons {packet : List α} {rest : List (List α)} :
      IsPacket last packet → CutShort last rest → CutShort last (packet :: rest)

/-- The packets of a stream are such. -/
theorem cutShort_packets (last : α → Bool) (stream : List α) :
    CutShort last (packets last stream) := by
  induction stream with
  | nil => exact .nil
  | cons item rest ih =>
      cases hlast : last item with
      | true =>
          rw [packets_cons_last hlast]
          exact .cons (.final hlast) ih
      | false =>
          rw [packets_cons_more hlast]
          generalize packets last rest = pieces at ih
          cases ih with
          | nil => exact .short (List.forall_mem_singleton.mpr hlast)
          | short hmore => exact .short (List.forall_mem_cons.mpr ⟨hlast, hmore⟩)
          | cons hpacket hothers => exact .cons (.more hlast hpacket) hothers

/-- What is sent of such a stream is cut into its packets, the last as far as it has
come. -/
theorem CutShort.getElem?_packets {pieces : List (List α)} (hpieces : CutShort last pieces)
    {sent : List α} (hinitial : sent <+: pieces.flatten) {index : Nat} {packet : List α}
    (hpacket : (packets last sent)[index]? = some packet) :
    ∃ source, pieces[index]? = some source ∧ packet <+: source := by
  induction hpieces generalizing sent index with
  | nil =>
      rw [List.flatten_nil, List.prefix_nil] at hinitial
      simp [hinitial, packets] at hpacket
  | @short piece hmore =>
      rw [List.flatten_cons, List.flatten_nil, List.append_nil] at hinitial
      obtain ⟨rfl, rfl⟩ := getElem?_packets_unmarked
        (fun item hitem => hmore item (hinitial.subset hitem)) hpacket
      exact ⟨piece, rfl, hinitial⟩
  | @cons first rest hfirst _ ih =>
      rw [List.flatten_cons] at hinitial
      rcases Nat.lt_or_ge sent.length first.length with hshort | hlong
      · have hsent : sent <+: first :=
          List.prefix_of_prefix_length_le hinitial (List.prefix_append _ _) (Nat.le_of_lt hshort)
        have hmore := (hfirst.cut hshort).1
        rw [← List.prefix_iff_eq_take.mp hsent] at hmore
        obtain ⟨rfl, rfl⟩ := getElem?_packets_unmarked hmore hpacket
        exact ⟨first, rfl, hsent⟩
      · obtain ⟨later, rfl⟩ :=
          List.prefix_of_prefix_length_le (List.prefix_append _ _) hinitial hlong
        rw [hfirst.packets_append] at hpacket
        cases index with
        | zero =>
            obtain rfl : first = packet := by simpa using hpacket
            exact ⟨first, rfl, List.prefix_rfl⟩
        | succ index =>
            rw [List.getElem?_cons_succ] at hpacket ⊢
            exact ih ((List.prefix_append_right_inj first).mp hinitial) hpacket

/-- A complete packet of such a stream is the one at its place. -/
theorem CutShort.getElem?_packets_flatten {pieces : List (List α)} (hpieces : CutShort last pieces)
    {index : Nat} {packet : List α} (hpacket : IsPacket last packet)
    (hindex : pieces[index]? = some packet) :
    (packets last pieces.flatten)[index]? = some packet := by
  induction hpieces generalizing index with
  | nil => simp at hindex
  | @short piece hmore =>
      obtain ⟨item, hitem, hlast⟩ := hpacket.exists_last
      have hpiece := List.mem_singleton.mp (List.mem_of_getElem? hindex)
      rw [hmore item (hpiece ▸ hitem)] at hlast
      contradiction
  | @cons first rest hfirst _ ih =>
      rw [List.flatten_cons, hfirst.packets_append]
      cases index with
      | zero => exact hindex
      | succ index => exact ih hindex

/-- Rewriting each packet at its length keeps the length of the stream. -/
theorem length_flatten_map {stream : List (List α)} {rewritten : List α → List β}
    (hsame : ∀ packet ∈ stream, (rewritten packet).length = packet.length) :
    (stream.map rewritten).flatten.length = stream.flatten.length := by
  rw [List.length_flatten, List.length_flatten, List.map_map]
  exact congrArg List.sum (List.map_congr_left hsame)

/-- A window that a prefix reaches over is the same in the whole. -/
theorem window_of_isPrefix {sent total : List α} (hinitial : sent <+: total) {start count : Nat}
    (hlength : start + count ≤ sent.length) :
    (sent.drop start).take count = (total.drop start).take count := by
  obtain ⟨rest, rfl⟩ := hinitial
  rw [List.drop_append_of_le_length (by omega),
    List.take_append_of_le_length (by rw [List.length_drop]; omega)]

/-- Of what has come in the first items are sent, and the packet of the latest one sent
has come in to its end. -/
def Released (last : α → Bool) (received sent : List α) : Prop :=
  ∃ rest, received = sent ++ rest ∧ ∀ front item, sent = front ++ [item] →
    ∃ other ∈ item :: rest, last other = true

theorem Released.nil (last : α → Bool) (received : List α) : Released last received [] :=
  ⟨received, rfl, fun front item hsent => absurd hsent.symm (by simp)⟩

/-- What comes in later changes nothing about what is sent. -/
theorem Released.append {received sent : List α} (hreleased : Released last received sent)
    (more : List α) : Released last (received ++ more) sent := by
  obtain ⟨rest, rfl, hends⟩ := hreleased
  refine ⟨rest ++ more, List.append_assoc _ _ _, ?_⟩
  intro front item hsent
  obtain ⟨other, hother, hlast⟩ := hends front item hsent
  exact ⟨other, List.mem_append_left more hother, hlast⟩

/-- Nothing of an incomplete packet is sent. -/
theorem Released.isPrefix {received sent : List α} (hreleased : Released last received sent)
    {whole piece : List α} (hreceived : received <+: whole ++ piece)
    (hpiece : ∀ item ∈ piece, last item = false) : sent <+: whole := by
  obtain ⟨rest, rfl, hends⟩ := hreleased
  have hsent : sent <+: whole ++ piece := (List.prefix_append sent rest).trans hreceived
  rcases Nat.le_total sent.length whole.length with hshort | hlong
  · exact List.prefix_of_prefix_length_le hsent (List.prefix_append whole piece) hshort
  · obtain ⟨opened, rfl⟩ :=
      List.prefix_of_prefix_length_le (List.prefix_append whole piece) hsent hlong
    rw [List.append_assoc] at hreceived
    have hopened := (List.prefix_append_right_inj whole).mp hreceived
    rcases List.eq_nil_or_concat' opened with rfl | ⟨front, item, rfl⟩
    · exact (List.append_nil whole).symm ▸ List.prefix_rfl
    · obtain ⟨other, hother, hlast⟩ := hends (whole ++ front) item (by rw [List.append_assoc])
      have hmem : other ∈ front ++ [item] ++ rest := by
        rw [List.append_assoc]
        exact List.mem_append_right front hother
      have hmore := hpiece other (hopened.subset hmem)
      rw [hlast] at hmore
      exact absurd hmore (by decide)

/-- Whole packets in front of a stream of packets and the beginning of one more are
the first packets of the stream. -/
theorem isPrefix_of_flatten {whole stream : List (List α)} {piece : List α}
    (hwhole : ∀ packet ∈ whole, IsPacket last packet)
    (hstream : ∀ packet ∈ stream, IsPacket last packet)
    (hpiece : ∀ item ∈ piece, last item = false)
    (hinitial : whole.flatten <+: stream.flatten ++ piece) : whole <+: stream := by
  induction whole generalizing stream with
  | nil => exact List.nil_prefix
  | cons packet rest ih =>
      have hpacket := hwhole packet List.mem_cons_self
      rw [List.flatten_cons] at hinitial
      cases stream with
      | nil =>
          obtain ⟨item, hitem, hlast⟩ := hpacket.exists_last
          have hmore := hpiece item (hinitial.subset (List.mem_append_left _ hitem))
          rw [hlast] at hmore
          exact absurd hmore (by decide)
      | cons first others =>
          have hfirst := hstream first List.mem_cons_self
          rw [List.flatten_cons, List.append_assoc] at hinitial
          have hsame : packet = first := by
            rcases List.prefix_or_prefix_of_prefix ((List.prefix_append _ _).trans hinitial)
              (List.prefix_append _ _) with hfront | hfront
            · exact hfront.eq_of_length (hpacket.length_eq_of_isPrefix hfirst (hfront.map last))
            · exact (hfront.eq_of_length
                (hfirst.length_eq_of_isPrefix hpacket (hfront.map last))).symm
          subst hsame
          rw [List.cons_prefix_cons]
          exact ⟨rfl, ih (fun other hother => hwhole other (List.mem_cons_of_mem _ hother))
            (fun other hother => hstream other (List.mem_cons_of_mem _ hother))
            ((List.prefix_append_right_inj packet).mp hinitial)⟩

/-- An open packet that reaches behind a stream of packets has all of them in front. -/
theorem eq_of_opened {whole stream : List (List α)} {piece tail : List α}
    (hwhole : ∀ packet ∈ whole, IsPacket last packet)
    (hstream : ∀ packet ∈ stream, IsPacket last packet)
    (hpiece : ∀ item ∈ piece, last item = false) (htail : ∀ item ∈ tail, last item = false)
    (hinitial : whole.flatten ++ piece <+: stream.flatten ++ tail)
    (hlength : stream.flatten.length < whole.flatten.length + piece.length) : whole = stream := by
  obtain ⟨others, rfl⟩ := isPrefix_of_flatten hwhole hstream htail
    ((List.prefix_append _ _).trans hinitial)
  rw [List.flatten_append, List.append_assoc, List.prefix_append_right_inj] at hinitial
  rw [List.flatten_append, List.length_append] at hlength
  cases others with
  | nil => exact (List.append_nil whole).symm
  | cons packet others =>
      have hpacket : packet <+: piece := by
        apply List.prefix_of_prefix_length_le _ hinitial
        · rw [List.flatten_cons, List.length_append] at hlength
          omega
        · rw [List.flatten_cons, List.append_assoc]
          exact List.prefix_append _ _
      obtain ⟨item, hitem, hlast⟩ :=
        (hstream packet (List.mem_append_right _ List.mem_cons_self)).exists_last
      rw [hpiece item (hpacket.subset hitem)] at hlast
      exact absurd hlast (by decide)

/-- Packets with one mark each are as many as their marks. -/
theorem countP_flatten {mark : α → Bool} {stream : List (List α)}
    (hstream : ∀ packet ∈ stream, packet.countP mark = 1) :
    stream.flatten.countP mark = stream.length := by
  rw [List.countP_flatten, List.map_congr_left hstream, List.map_const', List.sum_replicate_nat,
    Nat.mul_one]

/-- As many items in a row as the longest packet has contain a mark. -/
theorem exists_last_of_window {stream : List (List α)} {bound : Nat} (hbound : 0 < bound)
    (hstream : ∀ packet ∈ stream, IsPacket last packet ∧ packet.length ≤ bound)
    {front window : List α} (hinitial : front ++ window <+: stream.flatten)
    (hwindow : bound ≤ window.length) : ∃ item ∈ window, last item = true := by
  induction stream generalizing front with
  | nil =>
      rw [List.flatten_nil, List.prefix_nil] at hinitial
      rw [(List.append_eq_nil_iff.mp hinitial).2, List.length_nil] at hwindow
      omega
  | cons packet rest ih =>
      obtain ⟨hpacket, hlength⟩ := hstream packet List.mem_cons_self
      have hrest : ∀ other ∈ rest, IsPacket last other ∧ other.length ≤ bound :=
        fun other hother => hstream other (List.mem_cons_of_mem _ hother)
      rw [List.flatten_cons] at hinitial
      rcases Nat.lt_or_ge front.length packet.length with hinside | hbehind
      · -- the window starts within the packet and reaches over its mark
        have hfront : front <+: packet :=
          List.prefix_of_prefix_length_le ((List.prefix_append _ _).trans hinitial)
            (List.prefix_append _ _) (Nat.le_of_lt hinside)
        obtain ⟨back, rfl⟩ := hfront
        have hback : IsPacket last back := by
          have hcut := (hpacket.cut hinside).2
          rwa [List.drop_left] at hcut
        rw [List.append_assoc, List.prefix_append_right_inj] at hinitial
        have hreach : back <+: window :=
          List.prefix_of_prefix_length_le (List.prefix_append _ _) hinitial (by
            rw [List.length_append] at hlength
            omega)
        obtain ⟨item, hitem, hlast⟩ := hback.exists_last
        exact ⟨item, hreach.subset hitem, hlast⟩
      · obtain ⟨later, rfl⟩ := List.prefix_of_prefix_length_le (List.prefix_append _ _)
          ((List.prefix_append _ _).trans hinitial) hbehind
        rw [List.append_assoc, List.prefix_append_right_inj] at hinitial
        exact ih hrest hinitial

/-! ## Packets that have come to their end -/

/-- Every stream consists of packets and the beginning of one more. -/
theorem exists_cut (last : α → Bool) (stream : List α) :
    ∃ (whole : List (List α)) (piece : List α), stream = whole.flatten ++ piece ∧
      (∀ packet ∈ whole, IsPacket last packet) ∧ ∀ item ∈ piece, last item = false := by
  induction stream with
  | nil => exact ⟨[], [], rfl, by simp, by simp⟩
  | cons item rest ih =>
      obtain ⟨whole, piece, rfl, hwhole, hpiece⟩ := ih
      cases hlast : last item with
      | true =>
          exact ⟨[item] :: whole, piece, rfl,
            List.forall_mem_cons.mpr ⟨IsPacket.final hlast, hwhole⟩, hpiece⟩
      | false =>
          cases whole with
          | nil => exact ⟨[], item :: piece, rfl, hwhole, List.forall_mem_cons.mpr ⟨hlast, hpiece⟩⟩
          | cons packet others =>
              obtain ⟨hpacket, hothers⟩ := List.forall_mem_cons.mp hwhole
              exact ⟨(item :: packet) :: others, piece, rfl,
                List.forall_mem_cons.mpr ⟨IsPacket.more hlast hpacket, hothers⟩, hpiece⟩

/-- The packets of a stream without an incomplete one at its end. -/
def completed (last : α → Bool) (stream : List α) : List (List α) :=
  (packets last stream).filter fun packet => IsPacket last packet

theorem completed_isPacket {last : α → Bool} {stream : List α} :
    ∀ packet ∈ completed last stream, IsPacket last packet := by
  intro packet hmem
  simpa using (List.mem_filter.mp hmem).2

theorem completed_flatten_append {whole : List (List α)} {piece : List α}
    (hwhole : ∀ packet ∈ whole, IsPacket last packet)
    (hpiece : ∀ item ∈ piece, last item = false) :
    completed last (whole.flatten ++ piece) = whole := by
  have hopen : (packets last piece).filter (fun packet => IsPacket last packet) = [] := by
    rw [packets_unmarked hpiece]
    split_ifs
    · rfl
    · refine List.filter_eq_nil_iff.mpr ?_
      intro packet hmem
      obtain rfl := List.mem_singleton.mp hmem
      intro hpacket
      obtain ⟨item, hitem, hlast⟩ := (of_decide_eq_true hpacket).exists_last
      exact absurd hlast (by simp [hpiece item hitem])
  rw [completed, packets_flatten_append hwhole, List.filter_append, hopen, List.append_nil]
  exact List.filter_eq_self.mpr fun packet hmem => decide_eq_true (hwhole packet hmem)

/-- What follows the complete packets has no mark. -/
theorem exists_incomplete (last : α → Bool) (stream : List α) :
    ∃ piece, stream = (completed last stream).flatten ++ piece ∧
      ∀ item ∈ piece, last item = false := by
  obtain ⟨whole, piece, rfl, hwhole, hpiece⟩ := exists_cut last stream
  exact ⟨piece, by rw [completed_flatten_append hwhole hpiece], hpiece⟩

/-- One more item completes a packet if it has a mark. -/
theorem completed_append_singleton (last : α → Bool) (stream : List α) (item : α) :
    (last item = false ∧ completed last (stream ++ [item]) = completed last stream) ∨
      ∃ packet, completed last (stream ++ [item]) = completed last stream ++ [packet] := by
  obtain ⟨piece, hstream, hpiece⟩ := exists_incomplete last stream
  have hwhole : ∀ packet ∈ completed last stream, IsPacket last packet := completed_isPacket
  generalize completed last stream = whole at hstream hwhole ⊢
  subst hstream
  cases hlast : last item with
  | false =>
      refine Or.inl ⟨rfl, ?_⟩
      rw [List.append_assoc]
      apply completed_flatten_append hwhole
      intro other hother
      rcases List.mem_append.mp hother with hinside | hfinal
      · exact hpiece other hinside
      · rwa [List.mem_singleton.mp hfinal]
  | true =>
      refine Or.inr ⟨piece ++ [item], ?_⟩
      have hpacket := IsPacket.append hpiece (.final hlast)
      have hall : ∀ packet ∈ whole ++ [piece ++ [item]], IsPacket last packet := by
        intro packet hmem
        rcases List.mem_append.mp hmem with hinside | hfinal
        · exact hwhole packet hinside
        · rwa [List.mem_singleton.mp hfinal]
      have hnone : ∀ other ∈ ([] : List α), last other = false := by simp
      simpa using completed_flatten_append hall hnone

/-- The packets completed at the beginning of a stream of packets are its first ones. -/
theorem completed_isPrefix {stream : List (List α)}
    (hstream : ∀ packet ∈ stream, IsPacket last packet) {sent : List α}
    (hinitial : sent <+: stream.flatten) : completed last sent <+: stream := by
  obtain ⟨piece, hsent, -⟩ := exists_incomplete last sent
  have hfront : (completed last sent).flatten <+: sent := ⟨piece, hsent.symm⟩
  have hnone : ∀ item ∈ ([] : List α), last item = false := by simp
  refine isPrefix_of_flatten completed_isPacket hstream hnone ?_
  rw [List.append_nil]
  exact hfront.trans hinitial

/-! ## Streams that start and end with a packet -/

/-- The stream starts with a complete packet. -/
def HasPacket (last : α → Bool) (stream : List α) : Prop :=
  ∃ packet rest, stream = packet ++ rest ∧ IsPacket last packet

theorem not_hasPacket_nil : ¬ HasPacket last [] := by
  rintro ⟨packet, rest, hstream, hpacket⟩
  exact hpacket.ne_nil (List.append_eq_nil_iff.mp hstream.symm).1

/-- Behind an item that is not last the packet goes on. -/
theorem HasPacket.tail {item : α} {rest : List α} (hstream : HasPacket last (item :: rest))
    (hlast : last item = false) : HasPacket last rest := by
  obtain ⟨packet, others, heq, hpacket⟩ := hstream
  cases hpacket with
  | final hitem =>
      obtain ⟨rfl, -⟩ := List.cons_eq_cons.mp heq
      simp [hlast] at hitem
  | more _ hpacket => exact ⟨_, others, (List.cons_eq_cons.mp heq).2, hpacket⟩

/-- Every packet of the stream is complete. -/
def Framed (last : α → Bool) (stream : List α) : Prop :=
  ∀ packet ∈ packets last stream, IsPacket last packet

/-- Concatenated packets are framed. -/
theorem Framed.flatten (stream : List (List α))
    (hstream : ∀ packet ∈ stream, IsPacket last packet) :
    Framed last stream.flatten := by
  rwa [Framed, packets_flatten stream hstream]

/-- What follows the first item of a framed stream is framed. -/
theorem Framed.tail {item : α} {rest : List α} (hframed : Framed last (item :: rest)) :
    Framed last rest := by
  intro packet hmem
  cases hlast : last item with
  | true => exact hframed packet (by simp [packets_cons_last hlast, hmem])
  | false =>
      cases hrest : packets last rest with
      | nil => simp [hrest] at hmem
      | cons first others =>
          rw [Framed, packets_cons_more hlast, hrest] at hframed
          rw [hrest] at hmem
          rcases List.mem_cons.mp hmem with rfl | hother
          · cases hframed _ List.mem_cons_self with
            | final hitem => simp [hlast] at hitem
            | more _ hpacket => exact hpacket
          · exact hframed packet (List.mem_cons_of_mem _ hother)

/-- A framed stream goes on behind an item that is not last. -/
theorem Framed.tail_ne_nil {item : α} {rest : List α} (hframed : Framed last (item :: rest))
    (hlast : last item = false) : rest ≠ [] := by
  rintro rfl
  have hpacket := hframed [item] (by simp [packets, hlast])
  cases hpacket with
  | final hitem => simp [hlast] at hitem
  | more _ hrest => exact hrest.ne_nil rfl

/-- What follows any beginning of a framed stream is framed. -/
theorem Framed.of_append {front rest : List α} (hframed : Framed last (front ++ rest)) :
    Framed last rest := by
  induction front with
  | nil => exact hframed
  | cons item front ih => exact ih hframed.tail

/-- A stream that ends with a mark is framed. -/
theorem Framed.of_getLast? {stream : List α}
    (hfinal : ∀ item, stream.getLast? = some item → last item = true) : Framed last stream := by
  induction stream with
  | nil => simp [Framed, packets]
  | cons item rest ih =>
      have hrest : Framed last rest := by
        apply ih
        intro other hother
        exact hfinal other (by rw [List.getLast?_cons, hother]; rfl)
      cases hlast : last item with
      | true =>
          rw [Framed, packets_cons_last hlast, List.forall_mem_cons]
          exact ⟨.final hlast, hrest⟩
      | false =>
          have hne : rest ≠ [] := by
            rintro rfl
            exact absurd (hfinal item rfl) (by simp [hlast])
          rw [Framed, packets_cons_more hlast, List.forall_mem_cons]
          cases hpackets : packets last rest with
          | nil => exact absurd (packets_eq_nil hpackets) hne
          | cons packet others =>
              rw [Framed, hpackets, List.forall_mem_cons] at hrest
              exact ⟨.more hlast hrest.1, hrest.2⟩

/-- A framed stream starts with a packet. -/
theorem Framed.split {stream : List α} (hframed : Framed last stream) (hne : stream ≠ []) :
    HasPacket last stream := by
  cases hpackets : packets last stream with
  | nil => exact absurd (packets_eq_nil hpackets) hne
  | cons packet others =>
      refine ⟨packet, others.flatten, ?_, hframed packet (by simp [hpackets])⟩
      rw [← flatten_packets last stream, hpackets, List.flatten_cons]

end Elastic
