import IcmpServer.IcmpProc.Components

/-! # What the ICMP components compute

Each component is an elastic process whose output is a function of the whole
stream it reads: the beats are numbered by the component's own 8-bit counter and
rewritten by number. The accounts hold for every input stream, framed or not; a
stream on which a component waits forever is one whose function value is short.
What distinguishes a component is the account of its stages; the output and
input stages are dealt with once for all four.
-/

namespace IcmpServer.IcmpProc

open Elastic

/-- The beats of a stream with the indices counted for them. -/
def indexed : BitVec 8 → List Beat → List IdxBeat
  | _, [] => []
  | idx, beat :: rest => ⟨beat, idx⟩ :: indexed (nextIdx idx beat) rest

/-- Reading numbers the head of the stream and nothing else. -/
theorem inputStage_indexed (stage0 : Option IdxBeat) (idxCounter : BitVec 8)
    (chDatIn : StreamIn Beat) (later : List Beat) :
    (inputStage stage0 idxCounter chDatIn).1.toList ++
        indexed (inputStage stage0 idxCounter chDatIn).2.1
          ((inputStage stage0 idxCounter chDatIn).2.2.queue ++ later) =
      stage0.toList ++ indexed idxCounter (chDatIn.queue ++ later) := by
  cases stage0 with
  | some held => rfl
  | none =>
      obtain ⟨queue, deliver⟩ := chDatIn
      cases deliver <;> cases queue <;> simp [inputStage, StreamIn.tryRead, indexed]

theorem inputStage_count (stage0 : Option IdxBeat) (idxCounter : BitVec 8)
    (chDatIn : StreamIn Beat) :
    occupied (inputStage stage0 idxCounter chDatIn).1 +
        (inputStage stage0 idxCounter chDatIn).2.2.queue.length =
      occupied stage0 + chDatIn.queue.length := by
  cases stage0 with
  | some held => rfl
  | none =>
      obtain ⟨queue, deliver⟩ := chDatIn
      cases deliver <;> cases queue <;> simp [inputStage, StreamIn.tryRead, Nat.add_comm]

theorem inputStage_idle_or_lt (stage0 : Option IdxBeat) (idxCounter : BitVec 8)
    (chDatIn : StreamIn Beat) :
    inputStage stage0 idxCounter chDatIn = (stage0, idxCounter, chDatIn) ∨
      (inputStage stage0 idxCounter chDatIn).2.2.queue.length < chDatIn.queue.length := by
  cases stage0 with
  | some held => exact Or.inl rfl
  | none =>
      obtain ⟨queue, deliver⟩ := chDatIn
      cases deliver <;> cases queue <;> simp [inputStage, StreamIn.tryRead]

/-- A served input stage that leaves the queue alone was full, or found it empty. -/
theorem inputStage_served (stage0 : Option IdxBeat) (idxCounter : BitVec 8) (queue : List Beat)
    (hqueue : (inputStage stage0 idxCounter ⟨queue, true⟩).2.2.queue = queue) :
    (inputStage stage0 idxCounter ⟨queue, true⟩).1 = stage0 ∧ (stage0 = none → queue = []) := by
  cases stage0 with
  | some held => exact ⟨rfl, fun h => absurd h (by simp)⟩
  | none =>
      cases queue with
      | nil => exact ⟨rfl, fun _ => rfl⟩
      | cons head rest => simp [inputStage, StreamIn.tryRead] at hqueue

theorem inputStage_queue_le (stage0 : Option IdxBeat) (idxCounter : BitVec 8)
    (chDatIn : StreamIn Beat) :
    (inputStage stage0 idxCounter chDatIn).2.2.queue.length ≤ chDatIn.queue.length := by
  rcases inputStage_idle_or_lt stage0 idxCounter chDatIn with hidle | hless
  · simp [hidle]
  · exact Nat.le_of_lt hless

/-! ## A component from its stages -/

theorem componentCall_eq {σ : Type} (stages : Stages σ) (state : Registers σ)
    (input : StreamIn Beat) (output : StreamOut Beat) :
    componentCall stages state input output =
      let flushed := output.flush state.top
      let moved := stages flushed.1 state.inner state.stage0
      let read := inputStage moved.2.2 state.idxCounter input
      (⟨moved.1, moved.2.1, read.1, read.2.1⟩, read.2.2, flushed.2) := rfl

/-- What the stages of a component make of numbered beats. -/
structure StageAccount {σ : Type} (stages : Stages σ) where
  /-- The output for the beats held between the highest stage and stage 0
  followed by the numbered beats. -/
  pending : σ → List IdxBeat → List Beat
  held : σ → Nat
  moves : σ → Nat
  /-- Moves from stage 0 to the output stream. -/
  depth : Nat
  conserve : ∀ top inner stage0 rest,
    (stages top inner stage0).1.toList ++
        pending (stages top inner stage0).2.1 ((stages top inner stage0).2.2.toList ++ rest) =
      top.toList ++ pending inner (stage0.toList ++ rest)
  count : ∀ top inner stage0,
    occupied (stages top inner stage0).1 + held (stages top inner stage0).2.1 +
        occupied (stages top inner stage0).2.2 =
      occupied top + held inner + occupied stage0
  forward : ∀ top inner stage0,
    stages top inner stage0 = (top, inner, stage0) ∨
      occupied (stages top inner stage0).1 + moves (stages top inner stage0).2.1 +
          depth * occupied (stages top inner stage0).2.2 <
        occupied top + moves inner + depth * occupied stage0
  /-- Idle stages with an empty highest stage have nothing to make of what they
  hold, or the beat they wait for is not in stage 0 yet. -/
  live : ∀ inner stage0 rest, stages none inner stage0 = (none, inner, stage0) →
    pending inner (stage0.toList ++ rest) ≠ [] → stage0 = none ∧ rest ≠ []

namespace StageAccount

variable {σ : Type} {stages : Stages σ} (account : StageAccount stages)

/-- What a component still writes when the list is all it will read. -/
def future (state : Registers σ) (input : List Beat) : List Beat :=
  state.top.toList ++
    account.pending state.inner (state.stage0.toList ++ indexed state.idxCounter input)

def load (state : Registers σ) : Nat :=
  occupied state.top + account.held state.inner + occupied state.stage0

def work (state : Registers σ) : Nat :=
  occupied state.top + account.moves state.inner + account.depth * occupied state.stage0

theorem call_conserve (state : Registers σ) (input : StreamIn Beat) (output : StreamOut Beat)
    (later : List Beat) :
    (componentCall stages state input output).2.2.written ++
        account.future (componentCall stages state input output).1
          ((componentCall stages state input output).2.1.queue ++ later) =
      output.written ++ account.future state (input.queue ++ later) := by
  simp only [componentCall_eq, future]
  rw [inputStage_indexed, account.conserve, ← List.append_assoc, StreamOut.flush_append,
    List.append_assoc]

theorem call_count (state : Registers σ) (input : StreamIn Beat) (output : StreamOut Beat) :
    account.load (componentCall stages state input output).1 +
        (componentCall stages state input output).2.1.queue.length +
        (componentCall stages state input output).2.2.written.length =
      account.load state + input.queue.length + output.written.length := by
  simp only [componentCall_eq, load]
  have hout := output.flush_count state.top
  have hmove := account.count (output.flush state.top).1 state.inner state.stage0
  have hin := inputStage_count (stages (output.flush state.top).1 state.inner state.stage0).2.2
    state.idxCounter input
  omega

/-- A call that is not idle moves some beat one register further. -/
theorem call_idle_or_lt (state : Registers σ) (input : StreamIn Beat) (output : StreamOut Beat) :
    componentCall stages state input output = (state, input, output) ∨
      account.work (componentCall stages state input output).1 +
          (account.depth + 1) * (componentCall stages state input output).2.1.queue.length <
        account.work state + (account.depth + 1) * input.queue.length := by
  simp only [componentCall_eq, work, Nat.add_mul, Nat.one_mul]
  have hflushed := output.flush_le state.top
  have hread := inputStage_queue_le
    (stages (output.flush state.top).1 state.inner state.stage0).2.2 state.idxCounter input
  have hcount := congrArg (account.depth * ·) (inputStage_count
    (stages (output.flush state.top).1 state.inner state.stage0).2.2 state.idxCounter input)
  simp only [Nat.mul_add] at hcount
  rcases account.forward (output.flush state.top).1 state.inner state.stage0 with hmove | hmove
  · rw [hmove] at hcount hread ⊢
    rcases inputStage_idle_or_lt state.stage0 state.idxCounter input with hin | hin
    · rw [hin]
      rcases output.flush_idle_or_lt state.top with hout | hout
      · rw [hout]
        exact Or.inl rfl
      · right
        simp only
        omega
    · right
      simp only at hcount ⊢
      omega
  · right
    omega

/-- A component with its stages, before its first call. -/
def process (stages : Stages σ) (inner : σ) : Process Unit Beat Beat where
  State := Registers σ
  init := { inner }
  call _ := componentCall stages

/-- While something is to be written, a served and accepted call moves. -/
theorem call_live (init : σ) (state : Registers σ) (queue written later : List Beat)
    (hfuture : account.future state (queue ++ later) ≠ []) (hlater : queue = [] → later = []) :
    ¬ (process stages init).Idle () state ⟨queue, true⟩ ⟨written, true⟩ := by
  rintro ⟨hstate, hqueue, hwritten⟩
  obtain ⟨top, inner, stage0, idxCounter⟩ := state
  simp only [process, componentCall_eq, Registers.mk.injEq] at hstate hqueue hwritten
  cases top with
  | some held => simp [StreamOut.flush_accept] at hwritten
  | none =>
      simp only [StreamOut.flush] at hstate hqueue
      obtain ⟨htop, hinner, hstage0, -⟩ := hstate
      obtain ⟨hkept, hempty⟩ := inputStage_served _ _ _ hqueue
      rw [hkept] at hstage0
      have hidle : stages none inner stage0 = (none, inner, stage0) :=
        Prod.ext htop (Prod.ext hinner hstage0)
      obtain ⟨hnone, hrest⟩ := account.live inner stage0 _ hidle hfuture
      rw [hstage0] at hempty
      have hqueue := hempty hnone
      rw [hqueue, hlater hqueue] at hrest
      exact hrest rfl

/-- The account of a component from the account of its stages. -/
def toAccount (init : σ) : Account (process stages init) where
  inv _ := True
  future := account.future
  load := account.load
  work := account.work
  depth := account.depth + 1
  inv_init := trivial
  inv_call _ _ _ _ _ := trivial
  conserve _ state input output later _ := account.call_conserve state input output later
  grows _ state _ output _ := output.flush_isPrefix state.top
  count _ state input output _ := account.call_count state input output
  progress _ state input output _ := by
    apply (account.call_idle_or_lt state input output).imp_left
    intro hidle
    exact ⟨congrArg Prod.fst hidle, congrArg (fun result => result.2.1.queue) hidle,
      congrArg (fun result => result.2.2.written) hidle⟩
  live state queue written later _ hfuture hlater :=
    ⟨(), account.call_live init state queue written later hfuture hlater⟩

end StageAccount

/-! ## Address swaps -/

namespace SwapField

variable (field : SwapField)

/-- What a swapping component makes of numbered beats. -/
def rewrite : List IdxBeat → List Beat
  | [] => []
  | [first] => if first.idx = field.held then [] else [first.beat]
  | first :: second :: rest =>
      if first.idx ≠ field.held then first.beat :: rewrite (second :: rest)
      else if second.idx = field.partner then
        { first.beat with data := field.front first.beat.data second.beat.data } ::
          { second.beat with data := field.back first.beat.data second.beat.data } ::
            rewrite rest
      else []

theorem rewrite_bypass (first : IdxBeat) (rest : List IdxBeat) (hidx : first.idx ≠ field.held) :
    field.rewrite (first :: rest) = first.beat :: field.rewrite rest := by
  cases rest <;> simp [rewrite, hidx]

theorem rewrite_swap (first second : IdxBeat) (rest : List IdxBeat)
    (hheld : first.idx = field.held) (hpartner : second.idx = field.partner) :
    field.rewrite (first :: second :: rest) =
      { first.beat with data := field.front first.beat.data second.beat.data } ::
        { second.beat with data := field.back first.beat.data second.beat.data } ::
          field.rewrite rest := by
  simp [rewrite, hheld, hpartner]

theorem rewrite_stuck (first second : IdxBeat) (rest : List IdxBeat)
    (hheld : first.idx = field.held) (hpartner : second.idx ≠ field.partner) :
    field.rewrite (first :: second :: rest) = [] := by
  simp [rewrite, hheld, hpartner]

theorem rewrite_wait (first : IdxBeat) (hheld : first.idx = field.held) :
    field.rewrite [first] = [] := by
  simp [rewrite, hheld]

/-- What stages 2 and 1 do in one call, by which stages are occupied and whether
stage 1 holds a beat of the held index with its partner behind it. -/
inductive Move : Option Beat → Option IdxBeat → Option IdxBeat →
    Option Beat × Option IdxBeat × Option IdxBeat → Prop
  | full (top first stage0) : Move (some top) (some first) stage0 (some top, some first, stage0)
  | pull (top second) : Move top none (some second) (top, some second, none)
  | empty (top) : Move top none none (top, none, none)
  | bypass (first stage0) : first.idx ≠ field.held →
      Move none (some first) stage0 (some first.beat, stage0, none)
  | swap (first second) : first.idx = field.held → second.idx = field.partner →
      Move none (some first) (some second)
        (some { first.beat with data := field.front first.beat.data second.beat.data },
          some ⟨{ second.beat with data := field.back first.beat.data second.beat.data },
            second.idx⟩, none)
  | wait (first) : first.idx = field.held → Move none (some first) none (none, some first, none)
  | stuck (first second) : first.idx = field.held → second.idx ≠ field.partner →
      Move none (some first) (some second) (none, some first, some second)

theorem stages_move (stage2 : Option Beat) (stage1 stage0 : Option IdxBeat) :
    field.Move stage2 stage1 stage0 (field.stages stage2 stage1 stage0) := by
  cases stage1 with
  | none =>
      cases stage0 with
      | none => cases stage2 <;> exact .empty _
      | some second => cases stage2 <;> exact .pull _ second
  | some first =>
      cases stage2 with
      | some top => cases stage0 <;> exact .full top first _
      | none =>
          by_cases hheld : first.idx = field.held
          · cases stage0 with
            | none =>
                simpa [stages, SwapField.stage2, SwapField.stage1, hheld]
                  using Move.wait first hheld
            | some second =>
                by_cases hpartner : second.idx = field.partner
                · simpa [stages, SwapField.stage2, SwapField.stage1, hheld, hpartner]
                    using Move.swap first second hheld hpartner
                · simpa [stages, SwapField.stage2, SwapField.stage1, hheld, hpartner]
                    using Move.stuck first second hheld hpartner
          · cases stage0 <;>
              simpa [stages, SwapField.stage2, SwapField.stage1, hheld]
                using Move.bypass first _ hheld

/-- A swapping component computes its rewriting of the numbered stream. -/
def account (hne : field.partner ≠ field.held) : StageAccount field.stages where
  pending stage1 rest := field.rewrite (stage1.toList ++ rest)
  held := occupied
  moves stage1 := 2 * occupied stage1
  depth := 3
  conserve stage2 stage1 stage0 rest := by
    have hmove := field.stages_move stage2 stage1 stage0
    generalize field.stages stage2 stage1 stage0 = moved at hmove
    cases hmove with
    | full | pull | empty | wait | stuck => simp
    | bypass first stage0 hheld => simp [rewrite_bypass, hheld]
    | swap first second hheld hpartner =>
        simp [rewrite_swap, rewrite_bypass, hheld, hpartner, hne]
  count stage2 stage1 stage0 := by
    have hmove := field.stages_move stage2 stage1 stage0
    generalize field.stages stage2 stage1 stage0 = moved at hmove
    cases hmove <;> simp
  forward stage2 stage1 stage0 := by
    have hmove := field.stages_move stage2 stage1 stage0
    generalize field.stages stage2 stage1 stage0 = moved at hmove
    cases hmove with
    | full | empty | wait | stuck => exact Or.inl rfl
    | pull | swap => simp
    | bypass first stage0 =>
        right
        simp only [occupied_none, occupied_some]
        omega
  live stage1 stage0 rest hidle hpending := by
    have hmove := field.stages_move none stage1 stage0
    rw [hidle] at hmove
    cases hmove with
    | empty =>
        refine ⟨rfl, ?_⟩
        rintro rfl
        exact hpending rfl
    | wait first hheld =>
        refine ⟨rfl, ?_⟩
        rintro rfl
        exact hpending (field.rewrite_wait first hheld)
    | stuck first second hheld hpartner =>
        exact absurd (field.rewrite_stuck first second rest hheld hpartner) hpending

end SwapField

/-! ## Reply type and ICMP checksum -/

/-- What `icmp_proc_param` makes of one numbered beat. -/
def paramRewrite (held : IdxBeat) : Beat :=
  { held.beat with data := paramData held.idx held.beat.data }

def paramAccount : StageAccount paramStages where
  pending _ rest := rest.map paramRewrite
  held _ := 0
  moves _ := 0
  depth := 2
  conserve stage1 _ stage0 rest := by
    cases stage1 <;> cases stage0 <;> simp [paramStages, paramRewrite]
  count stage1 _ stage0 := by
    cases stage1 <;> cases stage0 <;> simp [paramStages]
  forward stage1 _ stage0 := by
    cases stage1 <;> cases stage0 <;> simp [paramStages]
  live _ stage0 rest hidle hpending := by
    cases stage0 with
    | none => exact ⟨rfl, by simpa using hpending⟩
    | some held => simp [paramStages] at hidle

/-! ## IPv4 header checksum -/

/-- What `icmp_proc_ipv4chksum` makes of numbered beats not yet summed. The
optional beat is one of index 3 that waits for the next beat to be summed. -/
def chksumRewrite : Option Beat → BitVec 24 → List IdxBeat → List Beat
  | _, _, [] => []
  | none, checksum, first :: rest =>
      if first.idx = 3#8 then
        chksumRewrite (some first.beat) (chksumUpdate checksum first) rest
      else first.beat :: chksumRewrite none (chksumUpdate checksum first) rest
  | some waiting, checksum, first :: rest =>
      if first.idx = 4#8 then
        chksumInsert (chksumUpdate checksum first) waiting :: first.beat ::
          chksumRewrite none (chksumUpdate checksum first) rest
      else []

theorem chksumRewrite_bypass (checksum : BitVec 24) (first : IdxBeat) (rest : List IdxBeat)
    (hidx : first.idx ≠ 3#8) :
    chksumRewrite none checksum (first :: rest) =
      first.beat :: chksumRewrite none (chksumUpdate checksum first) rest := by
  simp [chksumRewrite, hidx]

theorem chksumRewrite_insert (checksum : BitVec 24) (first second : IdxBeat)
    (rest : List IdxBeat) (hidx : first.idx = 3#8) (hnext : second.idx = 4#8) :
    chksumRewrite none checksum (first :: second :: rest) =
      chksumInsert (chksumUpdate (chksumUpdate checksum first) second) first.beat ::
        second.beat ::
          chksumRewrite none (chksumUpdate (chksumUpdate checksum first) second) rest := by
  simp [chksumRewrite, hidx, hnext]

/-- The same from a summed beat in stage 1 on. -/
def chksumFrom1 (stage1 : Option IdxBeat) (checksum : BitVec 24) (rest : List IdxBeat) :
    List Beat :=
  match stage1 with
  | none => chksumRewrite none checksum rest
  | some first =>
      if first.idx = 3#8 then chksumRewrite (some first.beat) checksum rest
      else first.beat :: chksumRewrite none checksum rest

/-- The same from the summed beats in stages 2 and 1 on. -/
def chksumFrom2 (inner : ChksumInner) (rest : List IdxBeat) : List Beat :=
  match inner.stage2, inner.stage1 with
  | none, stage1 => chksumFrom1 stage1 inner.checksum rest
  | some first, none => chksumFrom1 (some first) inner.checksum rest
  | some first, some second =>
      if first.idx ≠ 3#8 then first.beat :: chksumFrom1 (some second) inner.checksum rest
      else if second.idx = 4#8 then
        chksumInsert inner.checksum first.beat :: second.beat ::
          chksumRewrite none inner.checksum rest
      else []

theorem chksumStage3_from2 (checksum : BitVec 24) (stage3 : Option Beat)
    (stage2 stage1 : Option IdxBeat) (rest : List IdxBeat) :
    (chksumStage3 checksum stage3 stage2 stage1).1.toList ++
        chksumFrom2 ⟨(chksumStage3 checksum stage3 stage2 stage1).2, stage1, checksum⟩ rest =
      stage3.toList ++ chksumFrom2 ⟨stage2, stage1, checksum⟩ rest := by
  cases stage3 with
  | some top => rfl
  | none =>
      cases stage2 with
      | none => rfl
      | some first =>
          by_cases hidx : first.idx = 3#8
          · cases stage1 with
            | none => simp [chksumStage3, hidx]
            | some second =>
                by_cases hnext : second.idx = 4#8
                · simp [chksumStage3, chksumFrom2, chksumFrom1, hidx, hnext]
                · simp [chksumStage3, hidx, hnext]
          · cases stage1 <;> simp [chksumStage3, chksumFrom2, chksumFrom1, hidx]

theorem advance_from2 (stage2 stage1 : Option IdxBeat) (checksum : BitVec 24)
    (rest : List IdxBeat) :
    chksumFrom2 ⟨(advance stage2 stage1).1, (advance stage2 stage1).2, checksum⟩ rest =
      chksumFrom2 ⟨stage2, stage1, checksum⟩ rest := by
  cases stage2 <;> cases stage1 <;> rfl

theorem chksumStage1_from2 (checksum : BitVec 24) (stage2 stage1 stage0 : Option IdxBeat)
    (rest : List IdxBeat) :
    chksumFrom2 ⟨stage2, (chksumStage1 checksum stage1 stage0).2.1,
        (chksumStage1 checksum stage1 stage0).1⟩
        ((chksumStage1 checksum stage1 stage0).2.2.toList ++ rest) =
      chksumFrom2 ⟨stage2, stage1, checksum⟩ (stage0.toList ++ rest) := by
  cases stage1 with
  | some second => cases stage0 <;> rfl
  | none =>
      cases stage0 with
      | none => rfl
      | some held =>
          cases stage2 with
          | none => simp [chksumStage1, chksumFrom2, chksumFrom1, chksumRewrite]
          | some first =>
              by_cases hidx : first.idx = 3#8
              · simp [chksumStage1, chksumFrom2, chksumFrom1, chksumRewrite, hidx]
              · simp [chksumStage1, chksumFrom2, chksumFrom1, chksumRewrite, hidx]

theorem chksumStages_eq (stage3 : Option Beat) (inner : ChksumInner) (stage0 : Option IdxBeat) :
    chksumStages stage3 inner stage0 =
      let third := chksumStage3 inner.checksum stage3 inner.stage2 inner.stage1
      let second := advance third.2 inner.stage1
      let first := chksumStage1 inner.checksum second.2 stage0
      (third.1, ⟨second.1, first.2.1, first.1⟩, first.2.2) := rfl

theorem chksumStage3_count (checksum : BitVec 24) (stage3 : Option Beat)
    (stage2 stage1 : Option IdxBeat) :
    occupied (chksumStage3 checksum stage3 stage2 stage1).1 +
        occupied (chksumStage3 checksum stage3 stage2 stage1).2 =
      occupied stage3 + occupied stage2 := by
  unfold chksumStage3
  split
  next =>
    split_ifs
    · rfl
    · split
      · split_ifs <;> rfl
      · rfl
  next => rfl

theorem chksumStage3_idle_or_lt (checksum : BitVec 24) (stage3 : Option Beat)
    (stage2 stage1 : Option IdxBeat) :
    chksumStage3 checksum stage3 stage2 stage1 = (stage3, stage2) ∨
      occupied (chksumStage3 checksum stage3 stage2 stage1).2 < occupied stage2 := by
  unfold chksumStage3
  split
  next =>
    split_ifs
    · simp
    · split
      · split_ifs <;> simp
      · simp
  next => exact Or.inl rfl

/-- A beat of index 3 in stage 2 stays while its successor is missing or is not
of index 4. -/
theorem chksumStage3_idle (checksum : BitVec 24) (first : IdxBeat) (stage1 : Option IdxBeat)
    (hidle : (chksumStage3 checksum none (some first) stage1).1 = none) :
    first.idx = 3#8 ∧ ∀ second, stage1 = some second → second.idx ≠ 4#8 := by
  by_cases hidx : first.idx = 3#8
  · refine ⟨hidx, ?_⟩
    rintro second rfl hnext
    simp [chksumStage3, hidx, hnext] at hidle
  · simp [chksumStage3, hidx] at hidle

theorem chksumStage1_count (checksum : BitVec 24) (stage1 stage0 : Option IdxBeat) :
    occupied (chksumStage1 checksum stage1 stage0).2.1 +
        occupied (chksumStage1 checksum stage1 stage0).2.2 =
      occupied stage1 + occupied stage0 := by
  cases stage1 <;> cases stage0 <;> rfl

theorem chksumStage1_idle_or_lt (checksum : BitVec 24) (stage1 stage0 : Option IdxBeat) :
    chksumStage1 checksum stage1 stage0 = (checksum, stage1, stage0) ∨
      occupied (chksumStage1 checksum stage1 stage0).2.2 < occupied stage0 := by
  cases stage1 <;> cases stage0 <;> simp [chksumStage1]

theorem chksumStage1_le (checksum : BitVec 24) (stage1 stage0 : Option IdxBeat) :
    occupied (chksumStage1 checksum stage1 stage0).2.2 ≤ occupied stage0 := by
  rcases chksumStage1_idle_or_lt checksum stage1 stage0 with hidle | hless
  · simp [hidle]
  · exact Nat.le_of_lt hless

/-- `icmp_proc_ipv4chksum` computes its rewriting of the numbered stream. -/
def chksumAccount : StageAccount chksumStages where
  pending := chksumFrom2
  held inner := occupied inner.stage2 + occupied inner.stage1
  -- a beat in stage 2 still moves to stage 3 and out, one in stage 1 once more
  moves inner := 2 * occupied inner.stage2 + 3 * occupied inner.stage1
  depth := 4
  conserve stage3 inner stage0 rest := by
    simp only [chksumStages_eq]
    rw [chksumStage1_from2, advance_from2, chksumStage3_from2]
  count stage3 inner stage0 := by
    simp only [chksumStages_eq]
    have hthird := chksumStage3_count inner.checksum stage3 inner.stage2 inner.stage1
    have hsecond := advance_count
      (chksumStage3 inner.checksum stage3 inner.stage2 inner.stage1).2 inner.stage1
    have hfirst := chksumStage1_count inner.checksum (advance
      (chksumStage3 inner.checksum stage3 inner.stage2 inner.stage1).2 inner.stage1).2 stage0
    omega
  forward stage3 inner stage0 := by
    simp only [chksumStages_eq]
    have hthird := chksumStage3_count inner.checksum stage3 inner.stage2 inner.stage1
    have hsecond := advance_count
      (chksumStage3 inner.checksum stage3 inner.stage2 inner.stage1).2 inner.stage1
    have hsecondLe := advance_le
      (chksumStage3 inner.checksum stage3 inner.stage2 inner.stage1).2 inner.stage1
    have hfirst := chksumStage1_count inner.checksum (advance
      (chksumStage3 inner.checksum stage3 inner.stage2 inner.stage1).2 inner.stage1).2 stage0
    have hfirstLe := chksumStage1_le inner.checksum (advance
      (chksumStage3 inner.checksum stage3 inner.stage2 inner.stage1).2 inner.stage1).2 stage0
    rcases chksumStage3_idle_or_lt inner.checksum stage3 inner.stage2 inner.stage1
      with hidle | hless
    · rw [hidle] at hsecond hsecondLe hfirst hfirstLe ⊢
      rcases advance_idle_or_lt inner.stage2 inner.stage1 with hidle | hless
      · rw [hidle] at hfirst hfirstLe ⊢
        rcases chksumStage1_idle_or_lt inner.checksum inner.stage1 stage0 with hidle | hless
        · rw [hidle]
          exact Or.inl rfl
        · right
          simp only at hfirst ⊢
          omega
      · right
        simp only at hsecond hfirst hfirstLe ⊢
        omega
    · right
      omega
  live inner stage0 rest hidle hpending := by
    obtain ⟨stage2, stage1, checksum⟩ := inner
    simp only [chksumStages_eq, Prod.mk.injEq, ChksumInner.mk.injEq] at hidle
    obtain ⟨hstage3, ⟨hstage2, hstage1, -⟩, hstage0⟩ := hidle
    cases stage2 with
    | none =>
        cases stage1 with
        | some second => simp [chksumStage3, advance] at hstage2
        | none =>
            cases stage0 with
            | some held => simp [chksumStage3, advance, chksumStage1] at hstage0
            | none =>
                refine ⟨rfl, ?_⟩
                rintro rfl
                exact hpending rfl
    | some first =>
        obtain ⟨hidx, hstuck⟩ := chksumStage3_idle checksum first stage1 hstage3
        -- a beat of index 3 waits for its successor, and nothing is written without one
        cases stage1 with
        | some second =>
            have hnext := hstuck second rfl
            simp [chksumFrom2, hidx, hnext] at hpending
        | none =>
            cases stage0 with
            | some held => simp [chksumStage3, advance, chksumStage1, hidx] at hstage0
            | none =>
                refine ⟨rfl, ?_⟩
                rintro rfl
                simp [chksumFrom2, chksumFrom1, chksumRewrite, hidx] at hpending

end IcmpServer.IcmpProc
