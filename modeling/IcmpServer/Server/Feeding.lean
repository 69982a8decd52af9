import IcmpServer.ArpProc.Arrivals
import IcmpServer.Elastic.Feeding
import IcmpServer.IcmpProc.EchoPath

/-! # Components on growing inputs

In the system a component reads what the components in front of it have written so
far. What is proved of it for an input that waits as a whole holds there as well.
-/

namespace IcmpServer

open Elastic

/-! ## The splitters -/

namespace RxSplit

variable {Port : Type} [DecidableEq Port] {depth : Nat}

/-- More beats behind those not read. -/
def feed (config : Config Port depth) (more : List Beat) : Config Port depth :=
  { config with input := config.input ++ more }

/-- A call on the longer input that reads no further. -/
theorem step_feed (updateState : Pipeline Beat depth → Option Port) (config : Config Port depth)
    (call : Call Port) (later : List Beat) :
    step (splitCall updateState) (feed config later)
        { call with deliver := call.deliver && !config.input.isEmpty } =
      feed (step (splitCall updateState) config call) later := by
  obtain ⟨hstages, hqueue⟩ := (config.routed call).2.1.shift_extend
    ⟨config.input, call.deliver⟩ later
  rw [step_eq, step_eq]
  simp only [feed, ← hqueue, ← hstages]
  rfl

/-- A splitter in front of which beats may still arrive. -/
def machine (router : Router Port depth) :
    Machine (List Beat) (Call Port) (Config Port depth) where
  start := start Port depth
  feed := feed
  step := step (splitCall router.update)
  feed_start _ _ := rfl
  feed_feed _ _ _ := by simp [feed]
  step_feed config call later := ⟨_, step_feed router.update config call later⟩

/-- The account of what a splitter has been fed, with anything else still to come. -/
theorem reached_accounted [Fintype Port] {router : Router Port depth} {given : List Beat}
    {config : Config Port depth} (hreached : (machine router).Reached given config)
    (later : List Beat) : Accounted router (given ++ later) (feed config later) :=
  hreached.holds (Accounted router)
    (fun whole schedule => run_accounted schedule _ (start_accounted router whole)) later

end RxSplit

/-! ## The ICMP path -/

namespace IcmpProc

def feedPath (config : PathConfig) (more : List Beat) : PathConfig :=
  { config with splitter := RxSplit.feed config.splitter more }

/-- The call that does the same on a longer input. -/
def maskPath (config : PathConfig) : PathCall → PathCall
  | .split call =>
      .split { call with deliver := call.deliver && !config.splitter.input.isEmpty }
  | .chain call => .chain call

theorem pathStep_feed (config : PathConfig) (call : PathCall) (later : List Beat) :
    pathStep (feedPath config later) (maskPath config call) =
      feedPath (pathStep config call) later := by
  cases call with
  | split call =>
      have hsplit : RxSplit.step RxSplit.rxSplitByIpv4proto (RxSplit.feed config.splitter later)
          { call with deliver := call.deliver && !config.splitter.input.isEmpty } =
          RxSplit.feed (RxSplit.step RxSplit.rxSplitByIpv4proto config.splitter call) later :=
        RxSplit.step_feed RxSplit.ipv4protoUpdate config.splitter call later
      simp only [pathStep, maskPath, feedPath, hsplit]
      rfl
  | chain call => rfl

/-- `rx_split_by_ipv4proto` and the ICMP chain behind `rx_split_by_etype`. -/
def pathMachine : Machine (List Beat) PathCall PathConfig where
  start := pathStart
  feed := feedPath
  step := pathStep
  feed_start _ _ := rfl
  feed_feed _ _ _ := by simp [feedPath, RxSplit.feed]
  step_feed config call later := ⟨_, pathStep_feed config call later⟩

end IcmpProc

/-! ## The ARP processor -/

namespace ArpProc

variable (addresses : Addresses)

def feed (config : Config) (more : List Beat) : Config :=
  { config with input := config.input ++ more }

theorem step_feed (config : Config) (call : Call) (later : List Beat) :
    step addresses (feed config later)
        { call with deliver := call.deliver && !config.input.isEmpty } =
      feed (step addresses config call) later := by
  have hstate : (step addresses (feed config later)
        { call with deliver := call.deliver && !config.input.isEmpty }).state =
      (step addresses config call).state := by
    rw [step_state_eq, step_state_eq]
    simp only [feed, Config.beforeControl, Config.ppsEn]
    cases call.deliver <;> cases config.input <;> rfl
  have hinput : (step addresses (feed config later)
        { call with deliver := call.deliver && !config.input.isEmpty }).input =
      (step addresses config call).input ++ later := by
    rw [(step_reads addresses _ _).1, (step_reads addresses config call).1]
    simp only [feed]
    cases call.deliver <;> cases config.input <;> rfl
  exact Config.mk.injEq .. ▸ ⟨hstate, hinput, rfl, rfl, rfl, rfl⟩

/-- `arp_proc` behind `rx_split_by_etype`, with all PPS pulses there will be. -/
def machine (pps : List (BitVec 8)) : Machine (List Beat) Call Config where
  start input := start input pps
  feed := feed
  step := step addresses
  feed_start _ _ := rfl
  feed_feed _ _ _ := by simp [feed]
  step_feed config call later := ⟨_, step_feed addresses config call later⟩

/-- What has been sent is framed by the log. -/
theorem reached_accounted {addresses : Addresses} {pps : List (BitVec 8)} {given : List Beat}
    {config : Config} (hreached : (machine addresses pps).Reached given config) :
    Accounted addresses config := by
  have hfed := hreached.holds (fun _ config => Accounted addresses config)
    (fun whole schedule => run_accounted addresses schedule _
      (start_accounted addresses whole pps)) []
  exact ⟨⟨hfed.stored.newest, hfed.stored.pending⟩, hfed.sending⟩

end ArpProc

end IcmpServer
