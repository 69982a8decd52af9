import IcmpServer.Elastic.Stream
import Mathlib.Data.List.ReduceOption

/-! # Register pipelines

A pipeline is a chain of registers between an input stream and whatever takes
items from its front. In one call every register moves into a free one ahead of
it, the front first, and the last register is refilled from the stream.
-/

namespace Elastic

variable {α : Type}

/-- A front register and `depth` registers behind it, the oldest item first. -/
structure Pipeline (α : Type) (depth : Nat) where
  front : Option α
  behind : List (Option α)
  length_behind : behind.length = depth
deriving DecidableEq, Repr

/-- One call of the registers of a pipeline, from the front to the stream. -/
def shiftIn : Option α → List (Option α) → StreamIn α → Option α × List (Option α) × StreamIn α
  | front, [], stream =>
      let (front, stream) := stream.fill front
      (front, [], stream)
  | front, next :: rest, stream =>
      let (front, next) := advance front next
      let (next, rest, stream) := shiftIn next rest stream
      (front, next :: rest, stream)

/-- The last register as its refill finds it, after the moves ahead of it. -/
def lastRegister : Option α → List (Option α) → Option α
  | front, [] => front
  | front, next :: rest => lastRegister (advance front next).2 rest

/-- Register moves that items need to leave a chain whose first register is
`base` moves away from the end. -/
def stagesWork (base : Nat) : List (Option α) → Nat
  | [] => 0
  | stage :: rest => base * occupied stage + stagesWork (base + 1) rest

theorem shiftIn_cons (front next : Option α) (rest : List (Option α)) (stream : StreamIn α) :
    shiftIn front (next :: rest) stream =
      let moved := shiftIn (advance front next).2 rest stream
      ((advance front next).1, moved.1 :: moved.2.1, moved.2.2) := rfl

theorem reduceOption_cons (stage : Option α) (rest : List (Option α)) :
    (stage :: rest).reduceOption = stage.toList ++ rest.reduceOption := by
  cases stage <;> simp

/-- Occupied registers are those of their items. -/
theorem map_some_reduceOption {registers : List (Option α)} (hfull : none ∉ registers) :
    registers.reduceOption.map some = registers := by
  induction registers with
  | nil => rfl
  | cons register rest ih =>
      cases register with
      | none => exact absurd List.mem_cons_self hfull
      | some item =>
          rw [List.reduceOption_cons_of_some, List.map_cons,
            ih fun hnone => hfull (List.mem_cons_of_mem _ hnone)]

theorem shiftIn_length (front : Option α) (behind : List (Option α)) (stream : StreamIn α) :
    (shiftIn front behind stream).2.1.length = behind.length := by
  induction behind generalizing front with
  | nil => rfl
  | cons next rest ih => simp [shiftIn_cons, ih]

/-- Items move from the stream into the registers in order, and none is lost. -/
theorem shiftIn_append (front : Option α) (behind : List (Option α)) (stream : StreamIn α) :
    ((shiftIn front behind stream).1 :: (shiftIn front behind stream).2.1).reduceOption ++
        (shiftIn front behind stream).2.2.queue =
      (front :: behind).reduceOption ++ stream.queue := by
  induction behind generalizing front with
  | nil =>
      simp only [shiftIn, reduceOption_cons, List.reduceOption_nil, List.append_nil]
      exact stream.fill_append front
  | cons next rest ih =>
      rw [shiftIn_cons, reduceOption_cons, List.append_assoc, ih, reduceOption_cons,
        reduceOption_cons, reduceOption_cons]
      simp only [← List.append_assoc, advance_append]

theorem shiftIn_suffix (front : Option α) (behind : List (Option α)) (stream : StreamIn α) :
    (shiftIn front behind stream).2.2.queue <:+ stream.queue := by
  induction behind generalizing front with
  | nil => exact stream.fill_suffix front
  | cons next rest ih => exact ih _

/-- The stream serves the last register only. -/
theorem shiftIn_stream (front : Option α) (behind : List (Option α)) (stream : StreamIn α) :
    (shiftIn front behind stream).2.2 = (stream.fill (lastRegister front behind)).2 := by
  induction behind generalizing front with
  | nil => rfl
  | cons next rest ih => exact ih _

/-- A free register anywhere lets every item behind it move, up to the last register. -/
theorem lastRegister_eq_none {front : Option α} {behind : List (Option α)}
    (hroom : none ∈ front :: behind) : lastRegister front behind = none := by
  induction behind generalizing front with
  | nil => simpa [lastRegister, eq_comm] using hroom
  | cons next rest ih =>
      apply ih
      rcases List.mem_cons.mp hroom with rfl | hroom
      · cases next <;> exact List.mem_cons_self
      · rcases List.mem_cons.mp hroom with rfl | hrest
        · cases front <;> exact List.mem_cons_self
        · exact List.mem_cons_of_mem _ hrest

/-- The registers either stay as they are or bring some item closer to the end. -/
theorem shiftIn_idle_or_lt (base : Nat) (front : Option α) (behind : List (Option α))
    (stream : StreamIn α) :
    shiftIn front behind stream = (front, behind, stream) ∨
      stagesWork base ((shiftIn front behind stream).1 :: (shiftIn front behind stream).2.1) +
          (base + behind.length + 1) * (shiftIn front behind stream).2.2.queue.length <
        stagesWork base (front :: behind) + (base + behind.length + 1) * stream.queue.length := by
  induction behind generalizing base front with
  | nil =>
      rcases stream.fill_idle_or_lt front with hidle | hless
      · left
        simp [shiftIn, hidle]
      · right
        have hcount := congrArg (base * ·) (stream.fill_count front)
        simp only [Nat.mul_add] at hcount
        simp only [shiftIn, stagesWork, List.length_nil, Nat.add_mul, Nat.zero_mul, Nat.one_mul]
        omega
  | cons next rest ih =>
      have hcount := congrArg (base * ·) (advance_count front next)
      simp only [Nat.mul_add] at hcount
      simp only [shiftIn_cons, stagesWork, List.length_cons]
      rcases ih (base + 1) (advance front next).2 with hidle | hless
      · rw [hidle]
        rcases advance_idle_or_lt front next with hstay | hmove
        · left
          rw [hstay]
        · right
          simp only [Nat.add_mul, Nat.one_mul] at hcount ⊢
          omega
      · right
        have hle := advance_le front next
        simp only [stagesWork, Nat.add_mul, Nat.one_mul] at hless hcount ⊢
        omega

/-- Registers that stay as they are while the stream is served are packed: the
free ones stand behind the occupied ones, and then the stream is empty. -/
theorem shiftIn_settled (front : Option α) (behind : List (Option α)) (stream : StreamIn α)
    (hidle : shiftIn front behind stream = (front, behind, stream))
    (hserved : stream.deliver = true ∨ stream.queue = []) :
    ∃ (items : List α) (free : Nat),
      front :: behind = items.map some ++ List.replicate free none ∧
        (free = 0 ∨ stream.queue = []) := by
  induction behind generalizing front with
  | nil =>
      cases front with
      | some item => exact ⟨[item], 0, rfl, Or.inl rfl⟩
      | none =>
          refine ⟨[], 1, rfl, Or.inr ?_⟩
          rcases hserved with hdeliver | hempty
          · obtain ⟨queue, deliver⟩ := stream
            cases queue with
            | nil => rfl
            -- a served read would have filled the register
            | cons head rest => simp_all [shiftIn, StreamIn.fill, StreamIn.tryRead]
          · exact hempty
  | cons next rest ih =>
      simp only [shiftIn_cons, Prod.mk.injEq, List.cons.injEq] at hidle
      obtain ⟨hfront, ⟨hnext, hrest⟩, hstream⟩ := hidle
      cases front with
      | some item =>
          obtain ⟨items, free, hpacked, hfree⟩ := ih next (Prod.ext hnext (Prod.ext hrest hstream))
          exact ⟨item :: items, free, by rw [hpacked]; rfl, hfree⟩
      | none =>
          cases next with
          | some item => simp [advance] at hfront
          | none =>
              -- two free registers in front: the packed rest is empty too
              obtain ⟨items, free, hpacked, hfree⟩ :=
                ih none (Prod.ext hnext (Prod.ext hrest hstream))
              cases items with
              | cons item items => simp at hpacked
              | nil =>
                  rcases hfree with rfl | hempty
                  · simp at hpacked
                  · exact ⟨[], free + 1, by rw [hpacked]; rfl, Or.inr hempty⟩

/-! ## Pipelines as a whole -/

namespace Pipeline

variable {depth : Nat}

/-- All registers free. -/
def empty (α : Type) (depth : Nat) : Pipeline α depth :=
  ⟨none, List.replicate depth none, List.length_replicate⟩

/-- All items, the oldest first. -/
def contents (pipeline : Pipeline α depth) : List α :=
  (pipeline.front :: pipeline.behind).reduceOption

/-- Register moves the items need to leave the pipeline. -/
def work (base : Nat) (pipeline : Pipeline α depth) : Nat :=
  stagesWork base (pipeline.front :: pipeline.behind)

/-- Take the item in the front register away. -/
def pop (pipeline : Pipeline α depth) : Pipeline α depth :=
  { pipeline with front := none }

/-- One call of all registers. -/
def shift (pipeline : Pipeline α depth) (stream : StreamIn α) :
    Pipeline α depth × StreamIn α :=
  let moved := shiftIn pipeline.front pipeline.behind stream
  (⟨moved.1, moved.2.1, (shiftIn_length _ _ _).trans pipeline.length_behind⟩, moved.2.2)

/-- The occupied registers stand in front of the free ones. -/
def Packed (pipeline : Pipeline α depth) (items : List α) (free : Nat) : Prop :=
  pipeline.front :: pipeline.behind = items.map some ++ List.replicate free none

/-- Some register is free. -/
def HasRoom (pipeline : Pipeline α depth) : Prop :=
  none ∈ pipeline.front :: pipeline.behind

/-- The last register as its refill finds it in a call. -/
def stage0 (pipeline : Pipeline α depth) : Option α :=
  lastRegister pipeline.front pipeline.behind

@[simp] theorem contents_empty : (empty α depth).contents = [] := by
  simp [contents, empty, List.reduceOption]

theorem contents_pop (pipeline : Pipeline α depth) :
    pipeline.contents = pipeline.front.toList ++ pipeline.pop.contents := by
  simp [contents, pop, reduceOption_cons]

theorem work_pop (base : Nat) (pipeline : Pipeline α depth) :
    pipeline.work base = base * occupied pipeline.front + pipeline.pop.work base := by
  simp [work, pop, stagesWork]

theorem shift_append (pipeline : Pipeline α depth) (stream : StreamIn α) :
    (pipeline.shift stream).1.contents ++ (pipeline.shift stream).2.queue =
      pipeline.contents ++ stream.queue :=
  shiftIn_append pipeline.front pipeline.behind stream

theorem shift_suffix (pipeline : Pipeline α depth) (stream : StreamIn α) :
    (pipeline.shift stream).2.queue <:+ stream.queue :=
  shiftIn_suffix pipeline.front pipeline.behind stream

theorem shift_idle_or_lt (base : Nat) (pipeline : Pipeline α depth) (stream : StreamIn α) :
    pipeline.shift stream = (pipeline, stream) ∨
      (pipeline.shift stream).1.work base +
          (base + depth + 1) * (pipeline.shift stream).2.queue.length <
        pipeline.work base + (base + depth + 1) * stream.queue.length := by
  obtain ⟨front, behind, rfl⟩ := pipeline
  apply (shiftIn_idle_or_lt base front behind stream).imp_left
  intro hidle
  simp [shift, hidle]

theorem shift_le (base : Nat) (pipeline : Pipeline α depth) (stream : StreamIn α) :
    (pipeline.shift stream).1.work base +
        (base + depth + 1) * (pipeline.shift stream).2.queue.length ≤
      pipeline.work base + (base + depth + 1) * stream.queue.length := by
  rcases pipeline.shift_idle_or_lt base stream with hidle | hless
  · simp [hidle]
  · exact Nat.le_of_lt hless

theorem shift_settled (pipeline : Pipeline α depth) (stream : StreamIn α)
    (hstages : (pipeline.shift stream).1 = pipeline)
    (hqueue : (pipeline.shift stream).2.queue = stream.queue)
    (hserved : stream.deliver = true ∨ stream.queue = []) :
    ∃ items free, pipeline.Packed items free ∧ (free = 0 ∨ stream.queue = []) := by
  have hidle : pipeline.shift stream = (pipeline, stream) := by
    rcases pipeline.shift_idle_or_lt 0 stream with hidle | hless
    · exact hidle
    · rw [hstages, hqueue] at hless
      exact absurd hless (Nat.lt_irrefl _)
  obtain ⟨front, behind, rfl⟩ := pipeline
  simp only [shift, Prod.mk.injEq, Pipeline.mk.injEq] at hidle
  exact shiftIn_settled front behind stream
    (Prod.ext hidle.1.1 (Prod.ext hidle.1.2 hidle.2)) hserved

theorem Packed.contents_eq {pipeline : Pipeline α depth} {items : List α} {free : Nat}
    (hpacked : pipeline.Packed items free) : pipeline.contents = items := by
  rw [contents, hpacked, List.reduceOption_append]
  simp [List.reduceOption]

/-- A pipeline without a free register is packed. -/
theorem exists_packed {pipeline : Pipeline α depth} (hfull : ¬ pipeline.HasRoom) :
    ∃ items, pipeline.Packed items 0 := by
  refine ⟨pipeline.contents, ?_⟩
  rw [Packed, contents, map_some_reduceOption hfull]
  exact (List.append_nil _).symm

theorem hasRoom_of_front_none {pipeline : Pipeline α depth} (hfront : pipeline.front = none) :
    pipeline.HasRoom := by
  rw [HasRoom, hfront]
  exact List.mem_cons_self

theorem HasRoom.stage0_eq_none {pipeline : Pipeline α depth} (hroom : pipeline.HasRoom) :
    pipeline.stage0 = none :=
  lastRegister_eq_none hroom

/-- With its last register free a pipeline takes an item whenever it is served. -/
theorem shift_queue {pipeline : Pipeline α depth} (hfree : pipeline.stage0 = none)
    (stream : StreamIn α) :
    (pipeline.shift stream).2.queue =
      if stream.deliver then stream.queue.tail else stream.queue := by
  have hstream : (pipeline.shift stream).2 = (stream.fill pipeline.stage0).2 :=
    shiftIn_stream _ _ _
  rw [hstream, hfree, StreamIn.fill_none, StreamIn.tryRead_queue]

/-- With its front register free a packed pipeline is empty. -/
theorem Packed.of_front_none {pipeline : Pipeline α depth} {items : List α} {free : Nat}
    (hpacked : pipeline.Packed items free) (hfront : pipeline.front = none) :
    items = [] ∧ free ≠ 0 := by
  rw [Packed, hfront] at hpacked
  cases items with
  | cons item rest => simp at hpacked
  | nil =>
      refine ⟨rfl, ?_⟩
      rintro rfl
      simp at hpacked

end Pipeline

end Elastic
