import IcmpServer.Elastic.Packets
import Mathlib.Data.List.Forall2

/-! # Streams of frames of a fixed size

A sender that works through one frame after the other, item by item, is
described position by position: the item at a position is a part of the frame
that the position falls into. Packets marked at their final item are cut from
such a stream frame by frame. Packets marked at their first item are found
again from the mark.
-/

namespace Elastic

variable {α φ : Type} {size : Nat} {part : φ → Nat → α → Prop} {frames : List φ} {sent : List α}

/-- Every item of the stream is the right part of its frame. -/
def FramedAs (size : Nat) (part : φ → Nat → α → Prop) (frames : List φ) (sent : List α) : Prop :=
  ∀ index item, sent[index]? = some item →
    ∃ frame, frames[index / size]? = some frame ∧ part frame (index % size) item

namespace FramedAs

theorem nil : FramedAs size part frames [] := by
  intro index item hitem
  simp at hitem

theorem mono (hframed : FramedAs size part frames sent) {other : φ → Nat → α → Prop}
    (hother : ∀ frame offset item, part frame offset item → other frame offset item) :
    FramedAs size other frames sent := by
  intro index item hitem
  obtain ⟨frame, hframe, hpart⟩ := hframed index item hitem
  exact ⟨frame, hframe, hother _ _ _ hpart⟩

/-- More frames may be started. -/
theorem push_frames (hframed : FramedAs size part frames sent) (more : List φ) :
    FramedAs size part (frames ++ more) sent := by
  intro index item hitem
  obtain ⟨frame, hframe, hpart⟩ := hframed index item hitem
  refine ⟨frame, ?_, hpart⟩
  rw [List.getElem?_append_left (List.getElem?_eq_some_iff.mp hframe).1, hframe]

/-- The next item is a part of the frame its position falls into. -/
theorem push_item (hframed : FramedAs size part frames sent) {item : α} {frame : φ}
    (hframe : frames[sent.length / size]? = some frame)
    (hpart : part frame (sent.length % size) item) :
    FramedAs size part frames (sent ++ [item]) := by
  intro index other hother
  rw [List.getElem?_append] at hother
  split_ifs at hother with hbefore
  · exact hframed index other hother
  · obtain rfl : index = sent.length := by
      have hlast := (List.getElem?_eq_some_iff.mp hother).1
      simp only [List.length_singleton] at hlast
      omega
    obtain rfl : item = other := by simpa using hother
    exact ⟨frame, hframe, hpart⟩

theorem of_isPrefix (hframed : FramedAs size part frames sent) {first : List α}
    (hinitial : first <+: sent) : FramedAs size part frames first := by
  obtain ⟨rest, rfl⟩ := hinitial
  intro index item hitem
  apply hframed index item
  rw [List.getElem?_append_left (List.getElem?_eq_some_iff.mp hitem).1, hitem]

/-- There is a frame for every item. -/
theorem length_le (hframed : FramedAs size part frames sent) (hsize : 0 < size) :
    sent.length ≤ frames.length * size := by
  rcases Nat.eq_zero_or_pos sent.length with hnil | hpositive
  · omega
  · have hitem := List.getElem?_eq_getElem (Nat.sub_lt hpositive Nat.one_pos)
    obtain ⟨frame, hframe, -⟩ := hframed _ _ hitem
    have hindex := (List.getElem?_eq_some_iff.mp hframe).1
    have hbound := (Nat.div_lt_iff_lt_mul hsize).mp hindex
    omega

/-- What follows the first frame is framed by the other frames. -/
theorem drop (hframed : FramedAs size part frames sent) (hsize : 0 < size) :
    FramedAs size part frames.tail (sent.drop size) := by
  intro index item hitem
  rw [List.getElem?_drop] at hitem
  obtain ⟨frame, hframe, hpart⟩ := hframed _ item hitem
  rw [Nat.add_div_left _ hsize] at hframe
  rw [Nat.add_mod_left] at hpart
  exact ⟨frame, by rwa [List.getElem?_tail], hpart⟩

end FramedAs

/-! ## Complete frames -/

/-- The first frame of a stream, with the given items where the stream ends too early. -/
def firstFrame (size : Nat) (items : Nat → α) (sent : List α) : List α :=
  (List.range size).map fun offset => sent[offset]?.getD (items offset)

theorem length_firstFrame (items : Nat → α) (sent : List α) :
    (firstFrame size items sent).length = size := by
  simp [firstFrame]

/-- A stream starts with its first frame, or ends within it. -/
theorem isPrefix_firstFrame (items : Nat → α) {rest : List α} (hrest : sent.drop size <+: rest) :
    sent <+: firstFrame size items sent ++ rest := by
  have hfirst : sent.take size = (firstFrame size items sent).take sent.length := by
    apply List.ext_getElem
    · rw [List.length_take, List.length_take, length_firstFrame, Nat.min_comm]
    · intro offset hoffset _
      have hinside : offset < sent.length := by
        rw [List.length_take] at hoffset
        omega
      simp [firstFrame, hinside]
  rcases Nat.lt_or_ge sent.length size with hshort | hlong
  · rw [List.take_of_length_le (Nat.le_of_lt hshort)] at hfirst
    have hinitial : sent <+: firstFrame size items sent :=
      ⟨(firstFrame size items sent).drop sent.length, by
        nth_rewrite 1 [hfirst]
        exact List.take_append_drop _ _⟩
    exact hinitial.trans (List.prefix_append _ _)
  · rw [List.take_of_length_le (Nat.le_trans (Nat.le_of_eq (length_firstFrame items sent)) hlong)]
      at hfirst
    rw [← hfirst]
    nth_rewrite 1 [← List.take_append_drop size sent]
    exact (List.prefix_append_right_inj _).mpr hrest

namespace FramedAs

theorem firstFrame {frame : φ} (hframed : FramedAs size part (frame :: frames) sent)
    {items : Nat → α} (hitems : ∀ offset, part frame offset (items offset)) (offset : Nat)
    (item : α) (hitem : (firstFrame size items sent)[offset]? = some item) :
    part frame offset item := by
  obtain ⟨hoffset, rfl⟩ := List.getElem?_eq_some_iff.mp hitem
  rw [length_firstFrame] at hoffset
  simp only [Elastic.firstFrame, List.getElem_map, List.getElem_range]
  cases hsent : sent[offset]? with
  | none => exact hitems offset
  | some item =>
      obtain ⟨same, hsame, hpart⟩ := hframed offset item hsent
      rw [Nat.div_eq_of_lt hoffset] at hsame
      rw [Nat.mod_eq_of_lt hoffset] at hpart
      obtain rfl := Option.some.inj hsame
      exact hpart

/-- When every frame has all its parts, the stream can be continued to complete
frames. -/
theorem exists_complete (hsize : 0 < size)
    (hparts : ∀ frame ∈ frames, ∀ offset, ∃ item, part frame offset item)
    (hframed : FramedAs size part frames sent) :
    ∃ packets : List (List α), sent <+: packets.flatten ∧ ∀ packet ∈ packets,
      packet.length = size ∧ ∃ frame ∈ frames, ∀ offset item, packet[offset]? = some item →
        part frame offset item := by
  induction frames generalizing sent with
  | nil =>
      refine ⟨[], ?_, by simp⟩
      cases sent with
      | nil => exact List.nil_prefix
      | cons item sent =>
          obtain ⟨_, hnone, -⟩ := hframed 0 item rfl
          simp at hnone
  | cons frame rest ih =>
      obtain ⟨packets, hinitial, hpackets⟩ := ih
        (fun other hother => hparts other (List.mem_cons_of_mem frame hother))
        (hframed.drop hsize)
      choose items hitems using hparts frame List.mem_cons_self
      refine ⟨Elastic.firstFrame size items sent :: packets,
        isPrefix_firstFrame items hinitial, ?_⟩
      intro packet hpacket
      rcases List.mem_cons.mp hpacket with rfl | hpacket
      · exact ⟨length_firstFrame items sent, frame, List.mem_cons_self, hframed.firstFrame hitems⟩
      · obtain ⟨hlength, source, hsource, hsources⟩ := hpackets packet hpacket
        exact ⟨hlength, source, List.mem_cons_of_mem frame hsource, hsources⟩

end FramedAs

/-! ## Packets of a framed stream -/

variable {last : α → Bool}

/-- The mark by position. -/
theorem IsPacket.last_getElem? {packet : List α} (hpacket : IsPacket last packet) (index : Nat)
    (item : α) (hitem : packet[index]? = some item) :
    last item = decide (index + 1 = packet.length) := by
  induction hpacket generalizing index with
  | final hlast =>
      obtain ⟨hindex, rfl⟩ := List.getElem?_eq_some_iff.mp hitem
      obtain rfl : index = 0 := by simpa using hindex
      simpa using hlast
  | @more first rest hlast hrest ih =>
      cases index with
      | zero =>
          obtain rfl : first = item := by simpa using hitem
          have hne := List.length_pos_iff.mpr hrest.ne_nil
          rw [hlast, eq_comm, decide_eq_false_iff_not, List.length_cons]
          omega
      | succ index =>
          rw [ih index (by simpa using hitem), List.length_cons]
          exact decide_eq_decide.mpr (by omega)

/-- When exactly the final part of a frame is marked, the packets are the frames. -/
theorem FramedAs.packets (hsize : 0 < size)
    (hlast : ∀ frame offset item, offset < size → part frame offset item →
      last item = decide (offset + 1 = size))
    {stream : List (List α)} (hstream : ∀ packet ∈ stream, IsPacket last packet)
    (hframed : FramedAs size part frames stream.flatten) :
    ∀ packet ∈ stream, packet.length = size ∧ ∃ frame ∈ frames, ∀ offset item,
      packet[offset]? = some item → part frame offset item := by
  induction stream generalizing frames with
  | nil => simp
  | cons packet rest ih =>
      have hpacket := hstream packet List.mem_cons_self
      have hpositive := List.length_pos_iff.mpr hpacket.ne_nil
      rw [List.flatten_cons] at hframed
      have hmark : ∀ index item, packet[index]? = some item →
          ∃ frame, frames[index / size]? = some frame ∧ part frame (index % size) item :=
        fun index item hitem => (hframed.of_isPrefix (List.prefix_append _ _)) index item hitem
      have hagree : ∀ index < packet.length,
          (index + 1 = packet.length ↔ index % size + 1 = size) := by
        intro index hindex
        have hitem := List.getElem?_eq_getElem hindex
        obtain ⟨frame, -, hpart⟩ := hmark index _ hitem
        rw [← decide_eq_decide, ← hpacket.last_getElem? index _ hitem,
          hlast _ _ _ (Nat.mod_lt _ hsize) hpart]
      -- a shorter packet would be marked too early, a longer one at `size` already
      have hlength : packet.length = size := by
        have hend := (hagree (packet.length - 1) (by omega)).mp (by omega)
        by_contra hne
        rcases Nat.lt_or_gt_of_ne hne with hshort | hlong
        · rw [Nat.mod_eq_of_lt (by omega)] at hend
          omega
        · have hfirst := (hagree (size - 1) (by omega)).mpr (by
            rw [Nat.mod_eq_of_lt (by omega)]
            omega)
          omega
      intro other hother
      rcases List.mem_cons.mp hother with rfl | hother
      · refine ⟨hlength, ?_⟩
        obtain ⟨frame, hframe, -⟩ := hmark 0 _ (List.getElem?_eq_getElem hpositive)
        refine ⟨frame, List.mem_of_getElem? hframe, ?_⟩
        intro offset item hitem
        have hoffset := (List.getElem?_eq_some_iff.mp hitem).1
        obtain ⟨same, hsame, hpart⟩ := hmark offset item hitem
        rw [Nat.div_eq_of_lt (by omega), ← Nat.zero_div size, hframe] at hsame
        rw [Nat.mod_eq_of_lt (by omega)] at hpart
        obtain rfl := Option.some.inj hsame
        exact hpart
      · have hrest := hframed.drop hsize
        rw [List.drop_left' hlength] at hrest
        obtain ⟨hother, frame, hframe, hpart⟩ :=
          ih (fun packet hmem => hstream packet (List.mem_cons_of_mem _ hmem)) hrest other hother
        exact ⟨hother, frame, List.mem_of_mem_tail hframe, hpart⟩

/-- Packets as long as the frames are the first frames, one after the other. -/
theorem FramedAs.forall₂ (hsize : 0 < size) {stream : List (List α)}
    (hlength : ∀ packet ∈ stream, packet.length = size) (hcount : stream.length ≤ frames.length)
    (hframed : FramedAs size part frames stream.flatten) :
    List.Forall₂ (fun frame packet => packet.length = size ∧
      ∀ offset item, packet[offset]? = some item → part frame offset item)
      (frames.take stream.length) stream := by
  induction stream generalizing frames with
  | nil => exact List.Forall₂.nil
  | cons packet rest ih =>
      obtain ⟨frame, others, rfl⟩ :=
        List.exists_cons_of_length_pos (Nat.lt_of_lt_of_le (Nat.succ_pos rest.length) hcount)
      obtain ⟨hthis, hrest⟩ := List.forall_mem_cons.mp hlength
      rw [List.flatten_cons] at hframed
      refine List.Forall₂.cons ⟨hthis, ?_⟩ (ih hrest (Nat.le_of_succ_le_succ hcount) ?_)
      · intro offset item hitem
        have hoffset := (List.getElem?_eq_some_iff.mp hitem).1
        obtain ⟨same, hsame, hpart⟩ :=
          hframed.of_isPrefix (List.prefix_append _ _) offset item hitem
        rw [Nat.div_eq_of_lt (hthis ▸ hoffset)] at hsame
        rw [Nat.mod_eq_of_lt (hthis ▸ hoffset)] at hpart
        obtain rfl := Option.some.inj hsame
        exact hpart
      · have htail := hframed.drop hsize
        rwa [List.drop_left' hthis] at htail

/-- Related lists have as many items of related kinds. -/
theorem countP_eq_of_forall₂ {related : φ → α → Prop} {first : φ → Bool} {second : α → Bool}
    {left : List φ} {right : List α} (hrelated : List.Forall₂ related left right)
    (hkinds : ∀ before after, related before after → first before = second after) :
    left.countP first = right.countP second := by
  induction hrelated with
  | nil => rfl
  | cons hpair _ ih => rw [List.countP_cons, List.countP_cons, ih, hkinds _ _ hpair]

/-- A packet is found again behind a stage that maps single items. -/
theorem take_drop_of_isPrefix {β : Type} (convert : α → β) {before after : List (List α)}
    {packet : List α} {sent : List β}
    (hinitial : sent <+: (before ++ packet :: after).flatten.map convert)
    (hlength : before.flatten.length + packet.length ≤ sent.length) :
    (sent.drop before.flatten.length).take packet.length = packet.map convert := by
  rw [window_of_isPrefix hinitial hlength, List.flatten_append, List.flatten_cons,
    List.map_append, List.map_append, List.drop_left' (List.length_map _),
    List.take_left' (List.length_map _)]

/-! ## Packets marked at their first item -/

/-- Exactly the first item is marked. -/
def Headed (mark : α → Bool) : List α → Prop
  | [] => False
  | first :: rest => mark first = true ∧ ∀ item ∈ rest, mark item = false

instance decidableHeaded (mark : α → Bool) : ∀ packet, Decidable (Headed mark packet)
  | [] => isFalse id
  | first :: rest =>
      inferInstanceAs (Decidable (mark first = true ∧ ∀ item ∈ rest, mark item = false))

theorem Headed.countP_eq {mark : α → Bool} {packet : List α} (hpacket : Headed mark packet) :
    packet.countP mark = 1 := by
  cases packet with
  | nil => exact hpacket.elim
  | cons first rest =>
      have hrest : rest.countP mark = 0 := List.countP_eq_zero.mpr fun item hitem => by
        simp [hpacket.2 item hitem]
      rw [List.countP_cons, hrest, if_pos hpacket.1]

/-- A marked item behind unmarked ones and headed packets starts one of them. -/
theorem exists_packet_of_mark {mark : α → Bool} {stream : List (List α)}
    (hstream : ∀ packet ∈ stream, Headed mark packet) (idle : List α)
    (hidle : ∀ item ∈ idle, mark item = false) {before behind : List α} {item : α}
    (hmark : mark item = true) (hsplit : idle ++ stream.flatten = before ++ item :: behind) :
    ∃ front packet rest, stream = front ++ packet :: rest ∧
      item :: behind = packet ++ rest.flatten := by
  induction stream generalizing idle before with
  | nil =>
      rw [List.flatten_nil, List.append_nil] at hsplit
      have hnone := hidle item (by simp [hsplit])
      simp [hmark] at hnone
  | cons packet rest ih =>
      have hpacket := hstream packet List.mem_cons_self
      have hrest := fun other hother => hstream other (List.mem_cons_of_mem packet hother)
      rcases List.append_eq_append_iff.mp hsplit with
        ⟨middle, -, hmiddle⟩ | ⟨middle, hmiddle, hrestEq⟩
      · cases packet with
        | nil => exact hpacket.elim
        | cons first body =>
            cases middle with
            | nil => exact ⟨[], _, rest, rfl, by simpa using hmiddle.symm⟩
            | cons other middle =>
                -- the mark is not this packet's: its body is idle for the rest
                obtain ⟨front, packet, others, rfl, hitems⟩ := ih hrest body hpacket.2
                  (List.cons_eq_cons.mp (by simpa using hmiddle)).2
                exact ⟨_ :: front, packet, others, rfl, hitems⟩
      · cases middle with
        | nil => exact ⟨[], packet, rest, rfl, by simpa using hrestEq⟩
        | cons first middle =>
            obtain ⟨rfl, -⟩ := List.cons_eq_cons.mp hrestEq
            have hnone := hidle item (by simp [hmiddle])
            simp [hmark] at hnone

end Elastic
