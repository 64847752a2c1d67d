import HftArb.Apps.HftDemo
import HftArb.Bench.Results
import HftArb.Book.Allocation
import HftArb.Book.InvariantCheck
import HftArb.Book.Isolation
import HftArb.Book.Overflow
import HftArb.Book.Positivity
import HftArb.Book.Run
import HftArb.Book.WalkChoice
import HftArb.Common.Escaping
import HftArb.Concurrency.BlockingFifo
import HftArb.Concurrency.SpscFifo
import HftArb.Concurrency.SpscLifetimes
import HftArb.Concurrency.SpscObservers
import HftArb.Md.Encoding
import HftArb.Md.NumericColumns
import HftArb.Metrics.LatencyRecorder
import HftArb.Oms.FreshIds
import HftArb.Oms.LifeCycle
import HftArb.Oms.Overfill
import HftArb.Oms.Reconciler
import HftArb.Risk.Blocked
import HftArb.Risk.Loading
import HftArb.Risk.MachineCheck
import HftArb.Risk.Staleness
import HftArb.Risk.Throttle
import HftArb.Sim.BookAge
import HftArb.Sim.CleanPair
import HftArb.Sim.ClockFree
import HftArb.Sim.Closing
import HftArb.Sim.GapRecord
import HftArb.Sim.HedgeGate
import HftArb.Sim.HedgeKill
import HftArb.Sim.HedgeLoss
import HftArb.Sim.LateAck
import HftArb.Sim.Ledger
import HftArb.Sim.Legs
import HftArb.Sim.Liquidity
import HftArb.Sim.LostUpdates
import HftArb.Sim.Outcome
import HftArb.Sim.PositionCap
import HftArb.Sim.ReportText
import HftArb.Sim.Rerun
import HftArb.Sim.Retransmission
import HftArb.Sim.RiskGate
import HftArb.Sim.ScenarioReport
import HftArb.Sim.Shrinking
import HftArb.Strategy.Signal
