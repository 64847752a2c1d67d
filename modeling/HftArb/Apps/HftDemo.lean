import HftArb.Risk.Loading
import HftArb.Sim.LogFiles
import HftArb.Sim.Signals

/-!
# `apps/hft_demo`

The program reads its costs and its limits, makes the output directory, opens the log files in it and
reads a feed, runs the simulator for one trade and prints a summary.  `hftDemo_report` says when it
gets that far, and what its output can then be trusted for: the opportunities it logs earn the costs of
the file, the first of them is traded, and the summary counts the rows that were printed to the logs.
-/

namespace Hft

/-- `CostModel::load`. -/
def CostModel.load (path : Bytes) (file : Option Bytes) : Except Bytes CostModel :=
  (readKeyValueFile path file).map fun cfg =>
    { feesPaisePerShare := cfg.getI64 "fees_paise_per_share" 0
      taxesPaisePerShare := cfg.getI64 "taxes_paise_per_share" 0
      slippageBufferPaise := cfg.getI64 "slippage_buffer_paise" 0
      latencyBufferPaise := cfg.getI64 "latency_buffer_paise" 0
      hedgeRiskBufferPaise := cfg.getI64 "hedge_risk_buffer_paise" 0
      minNetEdgePaise := cfg.getI64 "min_net_edge_paise" 0 }

/-- What `hft_demo` leaves: its exit code, what it has printed, and what it has printed to the logs if
it got to open them.  A log file that could not be opened takes no rows. -/
structure DemoResult where
  code : ℕ
  out : Bytes := []
  err : Bytes := []
  logs : Option Logs := none

/-- The line of `std::cout` for the result of the run. -/
def SimulatorResult.summary (scenarioName : Bytes) (r : SimulatorResult) : Bytes :=
  "scenario=".toList ++ scenarioName ++ " opportunities=".toList ++ natCol r.opportunities ++
    " trades=".toList ++ natCol r.trades ++ " hedges=".toList ++ natCol r.hedges ++
    " risk_blocks=".toList ++ natCol r.riskBlocks ++ " final_state=".toList ++
    r.finalState.toList ++ ['\n']

/-- `catch (const std::exception& e)`. -/
def DemoResult.error (what : Bytes) (logs : Option Logs) : DemoResult where
  code := 1
  err := "error: ".toList ++ what ++ ['\n']
  logs := logs

end Hft
