import IcmpServer.Elastic.Merge
import IcmpServer.Elastic.Rounds
import IcmpServer.TxMerge.Component

/-! # Merging whole packets

What `tx_merge` has sent, completed by any merge of what it has not, is a merge
of its two inputs. A beat moved to the output keeps this, since `port_select`
knows whose packet is open.
-/

namespace IcmpServer.TxMerge

open Elastic

/-- One entry of a schedule. -/
structure Call where
  deliverArp : Bool
  deliverIpv4 : Bool
  accept : Bool
deriving DecidableEq, Repr

/-- `tx_merge` with its inputs not yet read and the output written. -/
structure Config where
  state : MergeState
  inputArp : List Beat
  inputIpv4 : List Beat
  output : List Beat
deriving DecidableEq, Repr

/-- Before the first call. -/
def start (arp ipv4 : List Beat) : Config :=
  ⟨{}, arp, ipv4, []⟩

def step (config : Config) (call : Call) : Config :=
  let result := txMerge config.state ⟨config.inputArp, call.deliverArp⟩
    ⟨config.inputIpv4, call.deliverIpv4⟩ ⟨config.output, call.accept⟩
  ⟨result.1, result.2.1.queue, result.2.2.1.queue, result.2.2.2.written⟩

/-- Any finite schedule. -/
def run (config : Config) (schedule : List Call) : Config :=
  schedule.foldl step config

/-- Beats written or on their way to the output. -/
def Config.sent (config : Config) : List Beat :=
  config.output ++ config.state.stage1.toList

/-- ARP beats not merged yet. -/
def Config.arp (config : Config) : List Beat :=
  config.state.stage0Arp.toList ++ config.inputArp

/-- IPv4 beats not merged yet. -/
def Config.ipv4 (config : Config) : List Beat :=
  config.state.stage0Ipv4.toList ++ config.inputIpv4

/-! ## One call -/

/-- What lane merging can do. -/
inductive Merging (state : MergeState) : MergeState → Prop
  | arp (beat) : state.stage1 = none → state.stage0Arp = some beat → state.portSelect ≠ .ipv4 →
      Merging state
        { state with
          stage1 := some beat
          stage0Arp := none
          portSelect := if beat.last then .idle else .arp }
  | ipv4 (beat) : state.stage1 = none → state.stage0Ipv4 = some beat → state.portSelect ≠ .arp →
      Merging state
        { state with
          stage1 := some beat
          stage0Ipv4 := none
          portSelect := if beat.last then .idle else .ipv4 }
  | wait : (state.stage1 = none →
        (state.portSelect ≠ .ipv4 → state.stage0Arp = none) ∧
          (state.portSelect ≠ .arp → state.stage0Ipv4 = none)) →
      Merging state state

theorem mergeStage_cases (state : MergeState) : Merging state (mergeStage state) := by
  simp only [mergeStage]
  split
  next beat hstage1 harp =>
      obtain ⟨hheld, hport⟩ := Option.filter_eq_some_iff.mp harp
      exact .arp beat hstage1 hheld (by simpa using hport)
  next beat hstage1 _ hipv4 =>
      obtain ⟨hheld, hport⟩ := Option.filter_eq_some_iff.mp hipv4
      exact .ipv4 beat hstage1 hheld (by simpa using hport)
  next hnoArp hnoIpv4 =>
      refine .wait ?_
      intro hstage1
      have harp : state.stage0Arp.filter (fun _ => state.portSelect ≠ .ipv4) = none := by
        by_contra hsome
        obtain ⟨beat, hbeat⟩ := Option.ne_none_iff_exists'.mp hsome
        exact hnoArp beat hstage1 hbeat
      have hipv4 : state.stage0Ipv4.filter (fun _ => state.portSelect ≠ .arp) = none := by
        by_contra hsome
        obtain ⟨beat, hbeat⟩ := Option.ne_none_iff_exists'.mp hsome
        exact hnoIpv4 beat hstage1 harp hbeat
      constructor
      · intro hport
        cases hheld : state.stage0Arp <;> simp_all
      · intro hport
        cases hheld : state.stage0Ipv4 <;> simp_all

/-- What a call does to the beats not merged yet and to those sent. -/
inductive Effect (config next : Config) : Prop
  | arp (beat : Beat) : config.state.portSelect ≠ .ipv4 → config.arp = beat :: next.arp →
      next.ipv4 = config.ipv4 → next.sent = config.sent ++ [beat] →
      (next.state.portSelect = if beat.last then .idle else .arp) → Effect config next
  | ipv4 (beat : Beat) : config.state.portSelect ≠ .arp → config.ipv4 = beat :: next.ipv4 →
      next.arp = config.arp → next.sent = config.sent ++ [beat] →
      (next.state.portSelect = if beat.last then .idle else .ipv4) → Effect config next
  | stay : next.arp = config.arp → next.ipv4 = config.ipv4 → next.sent = config.sent →
      next.state.portSelect = config.state.portSelect → Effect config next

/-- The state between the output stage and lane merging. -/
def Config.flushed (config : Config) (call : Call) : MergeState :=
  { config.state with
    stage1 := ((⟨config.output, call.accept⟩ : StreamOut Beat).flush config.state.stage1).1 }

theorem step_eq (config : Config) (call : Call) :
    step config call =
      let merged := mergeStage (config.flushed call)
      let arp := (⟨config.inputArp, call.deliverArp⟩ : StreamIn Beat).fill merged.stage0Arp
      let ipv4 := (⟨config.inputIpv4, call.deliverIpv4⟩ : StreamIn Beat).fill merged.stage0Ipv4
      ⟨{ merged with stage0Arp := arp.1, stage0Ipv4 := ipv4.1 }, arp.2.queue, ipv4.2.queue,
        ((⟨config.output, call.accept⟩ : StreamOut Beat).flush config.state.stage1).2.written⟩ :=
  rfl

theorem step_effect (config : Config) (call : Call) : Effect config (step config call) := by
  have hsent := (⟨config.output, call.accept⟩ : StreamOut Beat).flush_append config.state.stage1
  have hfillArp := (⟨config.inputArp, call.deliverArp⟩ : StreamIn Beat).fill_append
  have hfillIpv4 := (⟨config.inputIpv4, call.deliverIpv4⟩ : StreamIn Beat).fill_append
  have hcases := mergeStage_cases (config.flushed call)
  rw [step_eq]
  generalize mergeStage (config.flushed call) = merged at hcases ⊢
  cases hcases with
  | arp beat hfree hheld hport =>
      simp only [Config.flushed] at hfree hheld
      rw [hfree] at hsent
      refine .arp beat hport ?_ (hfillIpv4 _) ?_ rfl
      · simp only [Config.arp, hheld]
        exact congrArg (beat :: ·) (hfillArp none).symm
      · simpa [Config.sent] using congrArg (· ++ [beat]) hsent
  | ipv4 beat hfree hheld hport =>
      simp only [Config.flushed] at hfree hheld
      rw [hfree] at hsent
      refine .ipv4 beat hport ?_ (hfillArp _) ?_ rfl
      · simp only [Config.ipv4, hheld]
        exact congrArg (beat :: ·) (hfillIpv4 none).symm
      · simpa [Config.sent] using congrArg (· ++ [beat]) hsent
  | wait => exact .stay (hfillArp _) (hfillIpv4 _) hsent rfl

/-! ## The account -/

/-- A possible rest of the output. -/
def Completes (portSelect : PortSelect) (arp ipv4 output : List Beat) : Prop :=
  match portSelect with
  | .idle => WholeMerge Beat.last arp ipv4 output
  | .arp => OpenMerge Beat.last arp ipv4 output
  | .ipv4 => OpenMerge Beat.last ipv4 arp output

theorem exists_completes (portSelect : PortSelect) (arp ipv4 : List Beat) :
    ∃ output, Completes portSelect arp ipv4 output := by
  cases portSelect with
  | idle => exact exists_wholeMerge _ _ _
  | arp => exact exists_openMerge _ _ _
  | ipv4 => exact exists_openMerge _ _ _

/-- An ARP beat in front of what completes the state after it. -/
theorem Completes.arp {portSelect : PortSelect} {beat : Beat} {arp ipv4 output : List Beat}
    (hport : portSelect ≠ .ipv4)
    (hnext : Completes (if beat.last then .idle else .arp) arp ipv4 output) :
    Completes portSelect (beat :: arp) ipv4 (beat :: output) := by
  have hopen : OpenMerge Beat.last (beat :: arp) ipv4 (beat :: output) := by
    refine OpenMerge.cons ?_ ?_
    · intro hlast
      simpa [hlast, Completes] using hnext
    · intro hlast
      simpa [hlast, Completes] using hnext
  cases portSelect with
  | idle => exact hopen.whole
  | arp => exact hopen
  | ipv4 => exact absurd rfl hport

theorem Completes.ipv4 {portSelect : PortSelect} {beat : Beat} {arp ipv4 output : List Beat}
    (hport : portSelect ≠ .arp)
    (hnext : Completes (if beat.last then .idle else .ipv4) arp ipv4 output) :
    Completes portSelect arp (beat :: ipv4) (beat :: output) := by
  have hopen : OpenMerge Beat.last (beat :: ipv4) arp (beat :: output) := by
    refine OpenMerge.cons ?_ ?_
    · intro hlast
      -- between packets neither lane comes first
      have hwhole : WholeMerge Beat.last arp ipv4 output := by
        simpa [hlast, Completes] using hnext
      exact hwhole.symm
    · intro hlast
      simpa [hlast, Completes] using hnext
  cases portSelect with
  | idle => exact hopen.whole.symm
  | arp => exact absurd rfl hport
  | ipv4 => exact hopen

/-- What holds of every configuration reached on two inputs. -/
structure Accounted (arp ipv4 : List Beat) (config : Config) : Prop where
  merges : ∀ later, Completes config.state.portSelect config.arp config.ipv4 later →
    WholeMerge Beat.last arp ipv4 (config.sent ++ later)
  framedArp : Framed Beat.last config.arp
  framedIpv4 : Framed Beat.last config.ipv4
  openArp : config.state.portSelect = .arp → config.arp ≠ []
  openIpv4 : config.state.portSelect = .ipv4 → config.ipv4 ≠ []

variable {arp ipv4 : List Beat}

theorem start_accounted (harp : Framed Beat.last arp) (hipv4 : Framed Beat.last ipv4) :
    Accounted arp ipv4 (start arp ipv4) where
  merges _ hlater := hlater
  framedArp := harp
  framedIpv4 := hipv4
  openArp hport := by simp [start] at hport
  openIpv4 hport := by simp [start] at hport

theorem step_accounted (config : Config) (call : Call) (hconfig : Accounted arp ipv4 config) :
    Accounted arp ipv4 (step config call) := by
  have heffect := step_effect config call
  generalize step config call = next at heffect ⊢
  cases heffect with
  | arp beat hport harp hipv4 hsent hnext =>
      have hframed := harp ▸ hconfig.framedArp
      refine ⟨?_, hframed.tail, hipv4 ▸ hconfig.framedIpv4, ?_, ?_⟩
      · intro later hlater
        rw [hnext, hipv4] at hlater
        have hmerge := hconfig.merges _ (harp ▸ Completes.arp hport hlater)
        rw [hsent, List.append_assoc]
        exact hmerge
      · intro hopen
        cases hlast : beat.last with
        | true => simp [hnext, hlast] at hopen
        | false => exact hframed.tail_ne_nil hlast
      · intro hopen
        cases hlast : beat.last <;> simp [hnext, hlast] at hopen
  | ipv4 beat hport hipv4 harp hsent hnext =>
      have hframed := hipv4 ▸ hconfig.framedIpv4
      refine ⟨?_, harp ▸ hconfig.framedArp, hframed.tail, ?_, ?_⟩
      · intro later hlater
        rw [hnext, harp] at hlater
        have hmerge := hconfig.merges _ (hipv4 ▸ Completes.ipv4 hport hlater)
        rw [hsent, List.append_assoc]
        exact hmerge
      · intro hopen
        cases hlast : beat.last <;> simp [hnext, hlast] at hopen
      · intro hopen
        cases hlast : beat.last with
        | true => simp [hnext, hlast] at hopen
        | false => exact hframed.tail_ne_nil hlast
  | stay harp hipv4 hsent hport =>
      exact ⟨by rw [harp, hipv4, hsent, hport]; exact hconfig.merges, harp ▸ hconfig.framedArp,
        hipv4 ▸ hconfig.framedIpv4, by rw [harp, hport]; exact hconfig.openArp,
        by rw [hipv4, hport]; exact hconfig.openIpv4⟩

theorem run_accounted (schedule : List Call) (config : Config)
    (hconfig : Accounted arp ipv4 config) : Accounted arp ipv4 (run config schedule) :=
  foldl_invariant (fun config call => step_accounted config call) schedule config hconfig

/-! ## Progress -/

/-- Moves still possible. -/
def Config.remaining (config : Config) : Nat :=
  occupied config.state.stage1 +
    (2 * occupied config.state.stage0Arp + 3 * config.inputArp.length) +
    (2 * occupied config.state.stage0Ipv4 + 3 * config.inputIpv4.length)

/-- No beat is left in the merger or in front of it. -/
structure Config.Drained (config : Config) : Prop where
  stage1 : config.state.stage1 = none
  arp : config.arp = []
  ipv4 : config.ipv4 = []

/-- An input register and its stream either stay or bring a beat closer. -/
theorem fill_idle_or_lt (stream : StreamIn Beat) (register : Option Beat) :
    stream.fill register = (register, stream) ∨
      2 * occupied (stream.fill register).1 + 3 * (stream.fill register).2.queue.length <
        2 * occupied register + 3 * stream.queue.length := by
  apply (stream.fill_idle_or_lt register).imp_right
  intro hless
  have hcount := stream.fill_count register
  omega

theorem fill_le (stream : StreamIn Beat) (register : Option Beat) :
    2 * occupied (stream.fill register).1 + 3 * (stream.fill register).2.queue.length ≤
      2 * occupied register + 3 * stream.queue.length := by
  rcases fill_idle_or_lt stream register with hidle | hless
  · simp [hidle]
  · exact Nat.le_of_lt hless

theorem step_idle_or_lt (config : Config) (call : Call) :
    step config call = config ∨ (step config call).remaining < config.remaining := by
  have hflush := (⟨config.output, call.accept⟩ : StreamOut Beat).flush_idle_or_lt
    config.state.stage1
  have hflushLe := (⟨config.output, call.accept⟩ : StreamOut Beat).flush_le config.state.stage1
  have hcases := mergeStage_cases (config.flushed call)
  rw [step_eq]
  generalize mergeStage (config.flushed call) = merged at hcases ⊢
  have harp := fill_le ⟨config.inputArp, call.deliverArp⟩ merged.stage0Arp
  have hipv4 := fill_le ⟨config.inputIpv4, call.deliverIpv4⟩ merged.stage0Ipv4
  cases hcases with
  | arp beat hfree hheld _ =>
      right
      simp only [Config.flushed] at hfree hheld harp hipv4
      simp only [Config.remaining, Config.flushed, hheld, occupied_some, occupied_none]
        at harp hipv4 ⊢
      omega
  | ipv4 beat hfree hheld _ =>
      right
      simp only [Config.flushed] at hfree hheld harp hipv4
      simp only [Config.remaining, Config.flushed, hheld, occupied_some, occupied_none]
        at harp hipv4 ⊢
      omega
  | wait =>
      simp only [Config.flushed] at harp hipv4 ⊢
      rcases hflush with hout | hout
      · rcases fill_idle_or_lt ⟨config.inputArp, call.deliverArp⟩ config.state.stage0Arp
          with hin | hin
        · rcases fill_idle_or_lt ⟨config.inputIpv4, call.deliverIpv4⟩ config.state.stage0Ipv4
            with hin' | hin'
          · left
            rw [hout, hin, hin']
          · right
            simp only [Config.remaining] at hin' ⊢
            omega
        · right
          simp only [Config.remaining] at hin ⊢
          omega
      · right
        simp only [Config.remaining]
        omega

theorem lane_empty {stream : StreamIn Beat} {register : Option Beat} (hfree : register = none)
    (hqueue : (stream.fill register).2.queue = stream.queue)
    (hserved : stream.deliver = true ∨ stream.queue = []) :
    register.toList ++ stream.queue = [] := by
  subst hfree
  exact stream.fill_served hqueue hserved

/-- While whole packets are left, a call that is not refused changes something. A
read must be served only as long as there is input. -/
theorem step_moves (config : Config) (call : Call) (hconfig : Accounted arp ipv4 config)
    (haccept : call.accept = true) (hservedArp : call.deliverArp = true ∨ config.inputArp = [])
    (hservedIpv4 : call.deliverIpv4 = true ∨ config.inputIpv4 = [])
    (hopen : ¬ config.Drained) : step config call ≠ config := by
  intro hidle
  have hcases := mergeStage_cases (config.flushed call)
  have hwritten := congrArg Config.output hidle
  rw [step_eq] at hidle hwritten
  have hfree : config.state.stage1 = none := by
    cases hheld : config.state.stage1 with
    | none => rfl
    | some beat => simp [hheld, haccept, StreamOut.flush_accept] at hwritten
  generalize mergeStage (config.flushed call) = merged at hcases hidle
  have hstage1 := congrArg (fun next : Config => next.state.stage1) hidle
  have hqueueArp := congrArg Config.inputArp hidle
  have hqueueIpv4 := congrArg Config.inputIpv4 hidle
  dsimp only at hstage1 hqueueArp hqueueIpv4
  cases hcases with
  | arp | ipv4 => simp [hfree] at hstage1
  | wait hwait =>
      obtain ⟨hwaitArp, hwaitIpv4⟩ := hwait (by simp [Config.flushed, hfree, StreamOut.flush])
      simp only [Config.flushed] at hwaitArp hwaitIpv4 hqueueArp hqueueIpv4
      have hemptyArp : config.state.portSelect ≠ .ipv4 → config.arp = [] := fun hport =>
        lane_empty (hwaitArp hport) hqueueArp hservedArp
      have hemptyIpv4 : config.state.portSelect ≠ .arp → config.ipv4 = [] := fun hport =>
        lane_empty (hwaitIpv4 hport) hqueueIpv4 hservedIpv4
      cases hport : config.state.portSelect with
      | idle => exact hopen ⟨hfree, hemptyArp (by simp [hport]), hemptyIpv4 (by simp [hport])⟩
      | arp => exact hconfig.openArp hport (hemptyArp (by simp [hport]))
      | ipv4 => exact hconfig.openIpv4 hport (hemptyIpv4 (by simp [hport]))

/-- A drained merger stays drained. -/
theorem step_drained (config : Config) (call : Call) (hdrained : config.Drained) :
    (step config call).Drained := by
  cases step_effect config call with
  | arp beat _ harp => simp [hdrained.arp] at harp
  | ipv4 beat _ hipv4 => simp [hdrained.ipv4] at hipv4
  | stay harp hipv4 _ _ =>
      refine ⟨?_, harp.trans hdrained.arp, hipv4.trans hdrained.ipv4⟩
      have hstage0Arp : config.state.stage0Arp = none := by
        simpa using (List.append_eq_nil_iff.mp hdrained.arp).1
      have hstage0Ipv4 : config.state.stage0Ipv4 = none := by
        simpa using (List.append_eq_nil_iff.mp hdrained.ipv4).1
      simp [step_eq, Config.flushed, hdrained.stage1, StreamOut.flush, mergeStage, hstage0Arp,
        hstage0Ipv4]

theorem step_output_isPrefix (config : Config) (call : Call) :
    config.output <+: (step config call).output :=
  StreamOut.flush_isPrefix ⟨config.output, call.accept⟩ config.state.stage1

theorem run_output_isPrefix (schedule : List Call) (config : Config) :
    config.output <+: (run config schedule).output := by
  induction schedule generalizing config with
  | nil => exact List.prefix_rfl
  | cons call rest ih => exact (step_output_isPrefix config call).trans (ih _)

/-! ## Whole runs -/

/-- A round has a call that is not refused and, unless its input is exhausted, is
served on each lane. -/
def IsRound (config : Config) (schedule : List Call) : Prop :=
  ∃ call ∈ schedule, call.accept = true ∧
    (call.deliverArp = true ∨ config.inputArp = []) ∧
      (call.deliverIpv4 = true ∨ config.inputIpv4 = [])

theorem step_inputs_suffix (config : Config) (call : Call) :
    (step config call).inputArp <:+ config.inputArp ∧
      (step config call).inputIpv4 <:+ config.inputIpv4 :=
  ⟨StreamIn.fill_suffix ⟨config.inputArp, call.deliverArp⟩ _,
    StreamIn.fill_suffix ⟨config.inputIpv4, call.deliverIpv4⟩ _⟩

/-- Finitely many rounds drain the merger from any reachable configuration. -/
theorem run_drains {config : Config} (hconfig : Accounted arp ipv4 config) :
    ∃ bound, ∀ rounds : List (List Call), bound ≤ rounds.length →
      (∀ round ∈ rounds, IsRound config round) → (run config rounds.flatten).Drained := by
  refine ⟨config.remaining + 1, ?_⟩
  intro rounds hlength hrounds
  refine rounds_reach step
    (fun reached => Accounted arp ipv4 reached ∧
      reached.inputArp <:+ config.inputArp ∧ reached.inputIpv4 <:+ config.inputIpv4)
    Config.Drained Config.remaining (IsRound config)
    (fun reached call h => ⟨step_accounted reached call h.1,
      (step_inputs_suffix reached call).1.trans h.2.1,
      (step_inputs_suffix reached call).2.trans h.2.2⟩)
    (fun reached call _ => step_idle_or_lt reached call)
    (fun reached call _ => step_drained reached call)
    ?_
    rounds hrounds config ⟨hconfig, List.suffix_rfl, List.suffix_rfl⟩ hlength
  intro reached schedule h hopen hround
  obtain ⟨call, hmem, haccept, harp, hipv4⟩ := hround
  exact ⟨call, hmem, step_moves reached call h.1 haccept
    (harp.imp_right fun (hempty : config.inputArp = []) => List.suffix_nil.mp (hempty ▸ h.2.1))
    (hipv4.imp_right fun (hempty : config.inputIpv4 = []) => List.suffix_nil.mp (hempty ▸ h.2.2))
    hopen⟩

/-- The output so far is the beginning of a merge. -/
theorem Accounted.output_isPrefix {config : Config} (hconfig : Accounted arp ipv4 config) :
    ∃ output, WholeMerge Beat.last arp ipv4 output ∧ config.output <+: output := by
  obtain ⟨later, hlater⟩ := exists_completes config.state.portSelect config.arp config.ipv4
  refine ⟨_, hconfig.merges later hlater, ?_⟩
  rw [Config.sent, List.append_assoc]
  exact List.prefix_append _ _

/-- A drained merger has written a merge. -/
theorem Accounted.output_merge {config : Config} (hconfig : Accounted arp ipv4 config)
    (hdrained : config.Drained) : WholeMerge Beat.last arp ipv4 config.output := by
  have hidle : config.state.portSelect = .idle := by
    cases hport : config.state.portSelect with
    | idle => rfl
    | arp => exact absurd hdrained.arp (hconfig.openArp hport)
    | ipv4 => exact absurd hdrained.ipv4 (hconfig.openIpv4 hport)
  have hmerge := hconfig.merges [] (by
    rw [hidle, hdrained.arp, hdrained.ipv4]
    exact ⟨[], .nil, rfl⟩)
  simpa [Config.sent, hdrained.stage1] using hmerge

/-- Whatever the schedule, the output is the beginning of a merge of whole packets. -/
theorem run_output_merge {arp ipv4 : List (List Beat)}
    (harp : ∀ packet ∈ arp, IsPacket Beat.last packet)
    (hipv4 : ∀ packet ∈ ipv4, IsPacket Beat.last packet) (schedule : List Call) :
    ∃ merged, Interleaves arp ipv4 merged ∧
      (run (start arp.flatten ipv4.flatten) schedule).output <+: merged.flatten := by
  have hconfig := run_accounted schedule _
    (start_accounted (Framed.flatten arp harp) (Framed.flatten ipv4 hipv4))
  obtain ⟨output, ⟨merged, hmerged, rfl⟩, hinitial⟩ := hconfig.output_isPrefix
  rw [packets_flatten arp harp, packets_flatten ipv4 hipv4] at hmerged
  exact ⟨merged, hmerged, hinitial⟩

/-- Whatever the schedule, the output of `tx_merge` is the beginning of a merge of
whole packets, and rounds without refusals write out such a merge of all of them. -/
theorem txMerge_merges (arp ipv4 : List (List Beat))
    (harp : ∀ packet ∈ arp, IsPacket Beat.last packet)
    (hipv4 : ∀ packet ∈ ipv4, IsPacket Beat.last packet) (schedule : List Call) :
    let config := run (start arp.flatten ipv4.flatten) schedule
    (∃ merged, Interleaves arp ipv4 merged ∧ config.output <+: merged.flatten) ∧
      ∃ bound, ∀ rounds : List (List Call), bound ≤ rounds.length →
        (∀ round ∈ rounds, IsRound config round) →
        ∃ merged, Interleaves arp ipv4 merged ∧ config.output <+: merged.flatten ∧
          (run config rounds.flatten).output = merged.flatten := by
  intro config
  have hconfig : Accounted arp.flatten ipv4.flatten config :=
    run_accounted schedule _ (start_accounted (Framed.flatten arp harp) (Framed.flatten ipv4 hipv4))
  refine ⟨run_output_merge harp hipv4 schedule, ?_⟩
  obtain ⟨bound, hbound⟩ := run_drains hconfig
  refine ⟨bound, ?_⟩
  intro rounds hlength hrounds
  have hmerge := (run_accounted rounds.flatten config hconfig).output_merge
    (hbound rounds hlength hrounds)
  rw [WholeMerge, packets_flatten arp harp, packets_flatten ipv4 hipv4] at hmerge
  obtain ⟨merged, hmerged, houtput⟩ := hmerge
  exact ⟨merged, hmerged, houtput ▸ run_output_isPrefix rounds.flatten config, houtput⟩

/-- The first packets of the source's testbench. -/
def arpTestPkt : List (List Beat) :=
  [[⟨0xffffffffffff1122#64, 1#8, 0#8, 0#8⟩,
    ⟨0x3344556608001111#64, 0#8, 0#8, 0#8⟩,
    ⟨0xbbbbccccddddeeee#64, 0#8, 0#8, 0#8⟩,
    ⟨0xffffaaaabbbbcccc#64, 0#8, 0#8, 0#8⟩,
    ⟨0xddddeeeeffffaaaa#64, 0#8, 0#8, 0#8⟩,
    ⟨0xbbbbccccddddeeee#64, 0#8, 0#8, 0#8⟩,
    ⟨0xffffaaaabbbbcccc#64, 0#8, 0#8, 0#8⟩,
    ⟨0xddddeeeeffffaaaa#64, 0#8, 0#8, 0#8⟩,
    ⟨0xddddee0000000000#64, 0#8, 1#8, 5#8⟩]]

def ipv4TestPkt : List (List Beat) :=
  [[⟨0xaabbccddeeff1122#64, 1#8, 0#8, 0#8⟩,
    ⟨0x3344556608005555#64, 0#8, 0#8, 0#8⟩,
    ⟨0xbbbbccccddddeeee#64, 0#8, 0#8, 0#8⟩,
    ⟨0xffffaaaabbbbcccc#64, 0#8, 0#8, 0#8⟩,
    ⟨0xddddeeeeffffaaaa#64, 0#8, 0#8, 0#8⟩,
    ⟨0xbbbbccccddddeeee#64, 0#8, 0#8, 0#8⟩,
    ⟨0xffffaaaabbbbcccc#64, 0#8, 0#8, 0#8⟩,
    ⟨0xddddeeeeffffaa00#64, 0#8, 1#8, 1#8⟩]]

theorem txMerge_merges_test :
    (∀ packet ∈ arpTestPkt, IsPacket Beat.last packet) ∧
      (∀ packet ∈ ipv4TestPkt, IsPacket Beat.last packet) ∧
      ∃ bound, ∀ rounds : List (List Call), bound ≤ rounds.length →
        (∀ round ∈ rounds, IsRound (start arpTestPkt.flatten ipv4TestPkt.flatten) round) →
        ∃ merged, Interleaves arpTestPkt ipv4TestPkt merged ∧ [] <+: merged.flatten ∧
          (run (start arpTestPkt.flatten ipv4TestPkt.flatten) rounds.flatten).output =
            merged.flatten := by
  have harp : ∀ packet ∈ arpTestPkt, IsPacket Beat.last packet := by decide
  have hipv4 : ∀ packet ∈ ipv4TestPkt, IsPacket Beat.last packet := by decide
  exact ⟨harp, hipv4, (txMerge_merges arpTestPkt ipv4TestPkt harp hipv4 []).2⟩

end IcmpServer.TxMerge
