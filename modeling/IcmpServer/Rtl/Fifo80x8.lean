import IcmpServer.Elastic.Queue
import IcmpServer.Elastic.Rounds
import Mathlib.Data.List.Induction
import Mathlib.Tactic.SplitIfs

/-! # The eight-word queue

`fifo_80x8` keeps its words in a shift register: the oldest word always stands in
slot 0. One clock edge is a function of the registers and of the inputs sampled
at the edge.
-/

namespace IcmpServer.Rtl

open Elastic

/-- The registers of `fifo_80x8`. Slot 8 of the array is never written and never
read and is left out. -/
structure Fifo80x8 where
  buf : Vector (BitVec 80) 8
  usedw : BitVec 4
  usedw1d : BitVec 4
deriving DecidableEq, Repr

namespace Fifo80x8

/-- Every register after `arst_n`. -/
def reset : Fifo80x8 :=
  ⟨Vector.replicate 8 0#80, 0#4, 0#4⟩

/-- A one-bit signal in four-bit arithmetic. -/
def bit (signal : Bool) : BitVec 4 :=
  (BitVec.ofBool signal).setWidth 4

/-- The multiplexer in front of a slot, between `wdata`, the slot behind it and
the slot itself. -/
def slot (fifo : Fifo80x8) (wdata : BitVec 80) (wval rval : Bool) (index : Nat)
    (behind self : BitVec 80) : BitVec 80 :=
  if rval then
    if wval && fifo.usedw == BitVec.ofNat 4 (index + 1) then wdata else behind
  else
    if wval && fifo.usedw == BitVec.ofNat 4 index then wdata else self

/-- One clock edge. Behind slot 7 stands zero. -/
def clock (fifo : Fifo80x8) (wdata : BitVec 80) (wval rval : Bool) : Fifo80x8 where
  buf := Vector.ofFn fun index : Fin 8 =>
    fifo.slot wdata wval rval index (fifo.buf[index.val + 1]?.getD 0#80) fifo.buf[index]
  usedw := fifo.usedw + bit wval - bit rval
  usedw1d := fifo.usedw

def rdata (fifo : Fifo80x8) : BitVec 80 := fifo.buf[0]

def afull (fifo : Fifo80x8) : Bool := decide (7#4 ≤ fifo.usedw)

def full (fifo : Fifo80x8) : Bool := fifo.usedw == 8#4

def aempty (fifo : Fifo80x8) : Bool := decide (fifo.usedw ≤ 1#4)

def empty (fifo : Fifo80x8) : Bool := fifo.usedw == 0#4

/-! ## The queue it keeps -/

/-- The number of words held. -/
def count (fifo : Fifo80x8) : Nat := fifo.usedw.toNat

/-- The words held, the oldest first. -/
def contents (fifo : Fifo80x8) : List (BitVec 80) :=
  fifo.buf.toList.take fifo.count

theorem count_reset : reset.count = 0 := rfl

theorem length_contents (fifo : Fifo80x8) (hcount : fifo.count ≤ 8) :
    fifo.contents.length = fifo.count := by
  simp [contents, hcount]

theorem empty_eq_true (fifo : Fifo80x8) : fifo.empty = true ↔ fifo.count = 0 := by
  simp [empty, count, ← BitVec.toNat_inj]

theorem aempty_eq_true (fifo : Fifo80x8) : fifo.aempty = true ↔ fifo.count ≤ 1 := by
  simp [aempty, count, BitVec.le_def]

theorem full_eq_true (fifo : Fifo80x8) : fifo.full = true ↔ fifo.count = 8 := by
  simp [full, count, ← BitVec.toNat_inj]

theorem afull_eq_true (fifo : Fifo80x8) : fifo.afull = true ↔ 7 ≤ fifo.count := by
  simp [afull, count, BitVec.le_def]

/-- The first word of the queue is the one at the output. -/
theorem contents_eq_cons (fifo : Fifo80x8) (hcount : fifo.count ≠ 0) :
    fifo.contents = fifo.rdata :: fifo.contents.tail := by
  obtain ⟨rest, hrest⟩ := Nat.exists_eq_succ_of_ne_zero hcount
  have hbuf : fifo.buf.toList = fifo.buf[0] :: fifo.buf.toList.tail := by
    apply List.ext_getElem?
    intro index
    cases index <;> simp
  rw [contents, hrest, hbuf]
  rfl

theorem toNat_bit (signal : Bool) : (bit signal).toNat = signal.toNat := by
  cases signal <;> rfl

/-- Reads of held words and writes with room keep the count in range. -/
theorem count_clock (fifo : Fifo80x8) (wdata : BitVec 80) (wval rval : Bool)
    (hcount : fifo.count ≤ 8) (hread : rval = true → fifo.count ≠ 0) :
    (fifo.clock wdata wval rval).count = fifo.count + wval.toNat - rval.toNat := by
  simp only [count, clock, BitVec.toNat_sub, BitVec.toNat_add, toNat_bit] at *
  cases wval <;> cases rval <;> simp at * <;> omega

theorem getElem?_contents (fifo : Fifo80x8) (index : Nat) :
    fifo.contents[index]? = if index < fifo.count then fifo.buf[index]? else none := by
  simp [contents, List.getElem?_take]

theorem usedw_eq_iff (fifo : Fifo80x8) (position : Nat) (hposition : position ≤ 8) :
    fifo.usedw = BitVec.ofNat 4 position ↔ fifo.count = position := by
  rw [← BitVec.toNat_inj, BitVec.toNat_ofNat, Nat.mod_eq_of_lt (by omega)]
  rfl

/-- A slot of the shift register after the edge. -/
theorem getElem?_clock (fifo : Fifo80x8) (wdata : BitVec 80) (wval rval : Bool) (index : Nat)
    (hindex : index < 8) :
    (fifo.clock wdata wval rval).buf[index]? =
      if wval = true ∧ fifo.count = index + rval.toNat then some wdata
      else if rval then some (fifo.buf[index + 1]?.getD 0#80) else fifo.buf[index]? := by
  have hslot := fifo.usedw_eq_iff (index + rval.toNat) (by cases rval <;> simp <;> omega)
  cases rval <;> cases wval <;>
    simp_all [clock, slot] <;> split_ifs <;> rfl

/-- A clock edge is a step of the queue. -/
theorem contents_clock (fifo : Fifo80x8) (wdata : BitVec 80) (wval rval : Bool)
    (hcount : fifo.count ≤ 8) (hread : rval = true → fifo.count ≠ 0)
    (hwrite : wval = true → rval = false → fifo.count ≠ 8) :
    (fifo.clock wdata wval rval).contents =
      queueStep fifo.contents rval (if wval then [wdata] else []) := by
  apply List.ext_getElem?
  intro index
  have hkept : (if rval then fifo.contents.tail else fifo.contents).length =
      fifo.count - rval.toNat := by
    cases rval <;> simp [fifo.length_contents hcount]
  rw [getElem?_contents, count_clock fifo wdata wval rval hcount hread, queueStep]
  rcases Nat.lt_trichotomy index (fifo.count - rval.toNat) with hless | heq | hgreater
  · -- a word that stays, one slot further in a read
    have hstay : ¬ (wval = true ∧ fifo.count = index + rval.toNat) := by omega
    rw [List.getElem?_append_left (by omega), if_pos (by omega),
      getElem?_clock _ _ _ _ _ (by omega), if_neg hstay]
    cases rval with
    | false =>
        have hstored : index < fifo.count := by simpa using hless
        simp [getElem?_contents, hstored]
    | true =>
        have hnext : index + 1 < fifo.count := by simp at hless; omega
        have hslot : index + 1 < 8 := by omega
        simp [getElem?_contents, hnext, hslot]
  · -- the place of a written word
    rw [List.getElem?_append_right (by omega), hkept, ← heq, Nat.sub_self]
    cases wval with
    | false => simp [heq]
    | true =>
        have hroom : index < 8 := by
          cases rval with
          | false => have hfree := hwrite rfl rfl; simp at heq; omega
          | true => simp at heq; have hheld := hread rfl; omega
        have hplace : fifo.count = index + rval.toNat := by
          cases rval with
          | false => simpa using heq.symm
          | true => have hheld := hread rfl; simp at heq; simp; omega
        simp [getElem?_clock _ _ _ _ _ hroom, hplace]
  · -- behind all words
    rw [List.getElem?_append_right (by omega), hkept, if_neg (by cases wval <;> simp <;> omega)]
    cases wval with
    | false => rfl
    | true =>
        exact (List.getElem?_eq_none (by simp; omega)).symm

/-! ## Runs -/

/-- What is sampled at one clock edge. -/
structure Inputs where
  wdata : BitVec 80
  wval : Bool
  rval : Bool

/-- A queue with the words written and the words taken from `rdata` since reset. -/
structure History where
  fifo : Fifo80x8
  written : List (BitVec 80)
  read : List (BitVec 80)

def History.start : History :=
  ⟨reset, [], []⟩

def History.step (history : History) (inputs : Inputs) : History where
  fifo := history.fifo.clock inputs.wdata inputs.wval inputs.rval
  written := history.written ++ if inputs.wval then [inputs.wdata] else []
  read := history.read ++ if inputs.rval then [history.fifo.rdata] else []

/-- Any number of clock cycles. -/
def History.run (history : History) (cycles : List Inputs) : History :=
  cycles.foldl History.step history

/-- No read of an empty queue, and no write to one of eight words that is not read
at the same edge. -/
def Requested (history : History) (inputs : Inputs) : Prop :=
  (inputs.rval = true → history.fifo.count ≠ 0) ∧
    (inputs.wval = true → inputs.rval = false → history.fifo.count ≠ 8)

instance (history : History) (inputs : Inputs) : Decidable (Requested history inputs) :=
  inferInstanceAs (Decidable (_ ∧ _))

/-- Holds of every history of requests that can be met. -/
structure Bounded (history : History) : Prop where
  /-- The words written and not yet read are those held, the oldest first. -/
  queued : Queued id id history.written history.fifo.contents history.read
  bounded : history.fifo.count ≤ 8

theorem start_bounded : Bounded History.start :=
  ⟨Queued.nil, Nat.zero_le 8⟩

theorem Bounded.step (history : History) (inputs : Inputs) (hbounded : Bounded history)
    (hrequested : Requested history inputs) : Bounded (history.step inputs) := by
  obtain ⟨hqueued, hcount⟩ := hbounded
  obtain ⟨hread, hwrite⟩ := hrequested
  refine ⟨?_, ?_⟩
  · have hcontents := contents_clock _ inputs.wdata inputs.wval inputs.rval hcount hread hwrite
    have hfront : inputs.rval = true →
        history.fifo.contents = history.fifo.rdata :: history.fifo.contents.tail :=
      fun hrval => history.fifo.contents_eq_cons (hread hrval)
    have hstep := hqueued.step id (fun _ => rfl) inputs.rval
      (if inputs.wval then [inputs.wdata] else []) hfront
    rw [List.map_id, ← hcontents] at hstep
    exact hstep
  · have hnext := count_clock _ inputs.wdata inputs.wval inputs.rval hcount hread
    have hroom : history.fifo.count + inputs.wval.toNat - inputs.rval.toNat ≤ 8 := by
      cases hrval : inputs.rval with
      | true => have hbit := inputs.wval.toNat_le; simp only [Bool.toNat_true]; omega
      | false =>
          cases hwval : inputs.wval with
          | true =>
              have hfree := hwrite hwval hrval
              simp only [Bool.toNat_true, Bool.toNat_false]
              omega
          | false => simpa using hcount
    exact Nat.le_trans (Nat.le_of_eq hnext) hroom

/-- The queue after the cycles is one of at most eight words, of which the ports
tell the number. -/
structure IsQueue (history : History) : Prop where
  /-- What was written is what was read and then the words held. -/
  account : history.written = history.read ++ history.fifo.contents
  length : history.fifo.contents.length = history.fifo.usedw.toNat
  bounded : history.fifo.usedw.toNat ≤ 8
  /-- `rdata` is the oldest word not yet read. -/
  oldest : history.fifo.usedw.toNat ≠ 0 →
    history.written = history.read ++ history.fifo.rdata :: history.fifo.contents.tail
  empty : history.fifo.empty = true ↔ history.fifo.contents.length = 0
  aempty : history.fifo.aempty = true ↔ history.fifo.contents.length ≤ 1
  full : history.fifo.full = true ↔ history.fifo.contents.length = 8
  afull : history.fifo.afull = true ↔ 7 ≤ history.fifo.contents.length

theorem Bounded.isQueue {history : History} (hbounded : Bounded history) : IsQueue history := by
  have haccount := hbounded.queued.eq_append
  have hlength := history.fifo.length_contents hbounded.bounded
  refine ⟨haccount, hlength, hbounded.bounded, ?_, ?_, ?_, ?_, ?_⟩
  · intro hheld
    rw [← history.fifo.contents_eq_cons hheld]
    exact haccount
  · rw [hlength, empty_eq_true]
  · rw [hlength, aempty_eq_true]
  · rw [hlength, full_eq_true]
  · rw [hlength, afull_eq_true]

/-- The delayed `usedw` is the number of words before the last edge. -/
theorem usedw1d_run (cycles : List Inputs) :
    (History.start.run cycles).fifo.usedw1d =
      (History.start.run cycles.dropLast).fifo.usedw := by
  cases cycles using List.reverseRecOn with
  | nil => rfl
  | append_singleton cycles last =>
      rw [List.dropLast_concat, History.run, List.foldl_append]
      rfl

/-- In every run from reset in which all requests can be met the queue gives the
written words back in order, and its ports tell how many it holds. -/
theorem fifo80x8_boundedQueue (cycles : List Inputs)
    (hrequested : Along History.step Requested History.start cycles) :
    IsQueue (History.start.run cycles) ∧
      (History.start.run cycles).fifo.usedw1d.toNat =
        (History.start.run cycles.dropLast).fifo.contents.length := by
  have hbounded := hrequested.invariant Bounded.step start_bounded
  have hearlier : Along History.step Requested History.start cycles.dropLast :=
    hrequested.of_isPrefix cycles.dropLast_prefix
  have hbefore := hearlier.invariant Bounded.step start_bounded
  refine ⟨hbounded.isQueue, ?_⟩
  rw [usedw1d_run]
  exact hbefore.isQueue.length.symm

/-- Eight writes, a read with a write, and a read. -/
def fillAndRead : List Inputs :=
  List.replicate 8 ⟨1#80, true, false⟩ ++ [⟨2#80, true, true⟩, ⟨0#80, false, true⟩]

theorem fifo80x8_boundedQueue_fillAndRead :
    IsQueue (History.start.run fillAndRead) ∧
      (History.start.run fillAndRead).fifo.usedw1d.toNat =
        (History.start.run fillAndRead.dropLast).fifo.contents.length :=
  fifo80x8_boundedQueue fillAndRead (by decide)

end Fifo80x8

end IcmpServer.Rtl
