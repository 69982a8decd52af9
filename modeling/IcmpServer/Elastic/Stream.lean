import Mathlib.Data.List.Basic

/-! # Elastic streams and register stages

One call of a component sees each of its streams as the items waiting (or
already written) together with what the runtime decides for this call: whether
a read is served and whether a write is taken. A register with an enable bit is
an optional item, absent exactly when the enable is clear.
-/

namespace Elastic

variable {α : Type}

/-- The reading end of a lossless stream during one call. -/
structure StreamIn (α : Type) where
  /-- Items written by the producer and not read yet, oldest first. -/
  queue : List α
  /-- Whether a read in this call is served when an item is waiting. -/
  deliver : Bool
deriving DecidableEq, Repr

/-- The writing end of a stream during one call. -/
structure StreamOut (α : Type) where
  /-- Everything written so far, oldest first. -/
  written : List α
  /-- Whether a write in this call is taken. -/
  accept : Bool
deriving DecidableEq, Repr

/-- A nonblocking read returns the next item or nothing. -/
def StreamIn.tryRead (stream : StreamIn α) : Option α × StreamIn α :=
  match stream.deliver, stream.queue with
  | true, head :: rest => (some head, { stream with queue := rest })
  | _, _ => (none, stream)

/-- A nonblocking write appends the item or, when refused, has no effect. -/
def StreamOut.tryWrite (stream : StreamOut α) (item : α) : Bool × StreamOut α :=
  if stream.accept then (true, { stream with written := stream.written ++ [item] })
  else (false, stream)

/-- An enabled output register offers its item and clears when it is taken. -/
def StreamOut.flush (stream : StreamOut α) (register : Option α) :
    Option α × StreamOut α :=
  match register with
  | none => (none, stream)
  | some item =>
      let (taken, stream) := stream.tryWrite item
      (if taken then none else some item, stream)

/-- An empty input register is refilled by a nonblocking read. -/
def StreamIn.fill (stream : StreamIn α) (register : Option α) : Option α × StreamIn α :=
  match register with
  | some item => (some item, stream)
  | none => stream.tryRead

theorem StreamIn.fill_none (stream : StreamIn α) : stream.fill none = stream.tryRead := rfl

/-- A register moves into the register ahead of it when that one is free. -/
def advance (ahead behind : Option α) : Option α × Option α :=
  match ahead, behind with
  | none, some item => (some item, none)
  | ahead, behind => (ahead, behind)

/-- How many items a register holds. -/
def occupied (register : Option α) : Nat :=
  register.toList.length

@[simp] theorem occupied_none : occupied (none : Option α) = 0 := rfl

@[simp] theorem occupied_some (item : α) : occupied (some item) = 1 := rfl

/-! ## Nothing is lost -/

/-- Reading moves the head of the queue into the result and changes nothing else. -/
theorem StreamIn.tryRead_append (stream : StreamIn α) :
    stream.tryRead.1.toList ++ stream.tryRead.2.queue = stream.queue := by
  unfold StreamIn.tryRead
  split
  next hqueue => simp [hqueue]
  next => rfl

/-- Only a served read takes the head of the queue. -/
theorem StreamIn.tryRead_queue (stream : StreamIn α) :
    stream.tryRead.2.queue = if stream.deliver then stream.queue.tail else stream.queue := by
  obtain ⟨queue, deliver⟩ := stream
  cases deliver <;> cases queue <;> rfl

/-- Offering the output register moves its item to the stream or keeps it. -/
theorem StreamOut.flush_append (stream : StreamOut α) (register : Option α) :
    (stream.flush register).2.written ++ (stream.flush register).1.toList =
      stream.written ++ register.toList := by
  cases register with
  | none => rfl
  | some item => cases haccept : stream.accept <;> simp [flush, tryWrite, haccept]

/-- What was written before stays. -/
theorem StreamOut.flush_isPrefix (stream : StreamOut α) (register : Option α) :
    stream.written <+: (stream.flush register).2.written := by
  cases register with
  | none => exact List.prefix_rfl
  | some item => cases haccept : stream.accept <;> simp [flush, tryWrite, haccept]

theorem StreamOut.flush_count (stream : StreamOut α) (register : Option α) :
    (stream.flush register).2.written.length + occupied (stream.flush register).1 =
      stream.written.length + occupied register := by
  simpa [occupied] using congrArg List.length (stream.flush_append register)

/-- Refilling the input register moves at most the head of the queue. -/
theorem StreamIn.fill_append (stream : StreamIn α) (register : Option α) :
    (stream.fill register).1.toList ++ (stream.fill register).2.queue =
      register.toList ++ stream.queue := by
  cases register with
  | none => exact stream.tryRead_append
  | some item => rfl

/-- Only the head of the queue can be gone. -/
theorem StreamIn.fill_suffix (stream : StreamIn α) (register : Option α) :
    (stream.fill register).2.queue <:+ stream.queue := by
  cases register with
  | some item => exact List.suffix_rfl
  | none =>
      obtain ⟨queue, deliver⟩ := stream
      cases deliver <;> cases queue <;> simp [fill, tryRead]

theorem StreamIn.fill_count (stream : StreamIn α) (register : Option α) :
    occupied (stream.fill register).1 + (stream.fill register).2.queue.length =
      occupied register + stream.queue.length := by
  simpa [occupied] using congrArg List.length (stream.fill_append register)

/-- Advancing between registers neither loses nor reorders an item. -/
theorem advance_append (ahead behind : Option α) :
    (advance ahead behind).1.toList ++ (advance ahead behind).2.toList =
      ahead.toList ++ behind.toList := by
  cases ahead <;> cases behind <;> rfl

theorem advance_count (ahead behind : Option α) :
    occupied (advance ahead behind).1 + occupied (advance ahead behind).2 =
      occupied ahead + occupied behind := by
  cases ahead <;> cases behind <;> rfl

/-! ## Idle or forward -/

theorem StreamOut.flush_idle_or_lt (stream : StreamOut α) (register : Option α) :
    stream.flush register = (register, stream) ∨
      occupied (stream.flush register).1 < occupied register := by
  cases register with
  | none => exact Or.inl rfl
  | some item => cases haccept : stream.accept <;> simp [flush, tryWrite, haccept]

theorem StreamOut.flush_le (stream : StreamOut α) (register : Option α) :
    occupied (stream.flush register).1 ≤ occupied register := by
  rcases stream.flush_idle_or_lt register with hidle | hless
  · simp [hidle]
  · exact Nat.le_of_lt hless

/-- An occupied output register empties when the write is taken. -/
theorem StreamOut.flush_accept (written : List α) (item : α) :
    (⟨written, true⟩ : StreamOut α).flush (some item) = (none, ⟨written ++ [item], true⟩) := rfl

/-- Behind a write that is not refused the output register is free. -/
theorem StreamOut.flush_free (stream : StreamOut α) (register : Option α)
    (haccept : stream.accept = true) : (stream.flush register).1 = none := by
  cases register with
  | none => rfl
  | some item => simp [flush, tryWrite, haccept]

theorem StreamIn.fill_idle_or_lt (stream : StreamIn α) (register : Option α) :
    stream.fill register = (register, stream) ∨
      (stream.fill register).2.queue.length < stream.queue.length := by
  cases register with
  | some item => exact Or.inl rfl
  | none =>
      obtain ⟨queue, deliver⟩ := stream
      cases deliver <;> cases queue <;> simp [fill, tryRead]

/-- A free input register that stays free while it is served saw an empty queue. -/
theorem StreamIn.fill_served (stream : StreamIn α)
    (hqueue : (stream.fill none).2.queue = stream.queue)
    (hserved : stream.deliver = true ∨ stream.queue = []) : stream.queue = [] := by
  obtain ⟨queue, deliver⟩ := stream
  cases queue with
  | nil => rfl
  | cons head rest =>
      obtain rfl : deliver = true := by simpa using hserved
      simp [fill, tryRead] at hqueue

theorem advance_idle_or_lt (ahead behind : Option α) :
    advance ahead behind = (ahead, behind) ∨
      occupied (advance ahead behind).2 < occupied behind := by
  cases ahead <;> cases behind <;> simp [advance]

theorem advance_le (ahead behind : Option α) :
    occupied (advance ahead behind).2 ≤ occupied behind := by
  rcases advance_idle_or_lt ahead behind with hidle | hless
  · simp [hidle]
  · exact Nat.le_of_lt hless

end Elastic
