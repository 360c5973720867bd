import BacktestAudit.Settings
import BacktestAudit.Statistics.Deflated
import BacktestAudit.Statistics.Overfitting.Estimate
import BacktestAudit.Statistics.RedFlag
import BacktestAudit.Statistics.Threshold

/-!
The verdict on the metrics of a backtest. It passes when every gate is met: the t-statistic reaches
its threshold, a high Sharpe ratio survives deflation, a choice among variants is not overfitted,
and no red flag stops it. The failures of a verdict name the gates that are not met.
-/
namespace BacktestAudit.Statistics
open BacktestAudit.Data BacktestAudit.Decimal

structure Verdict where
  requiredT : Float
  observedT : Float
  deflatedSharpe : Float
  overfitting : Option Float
  redFlags : List RedFlag
  passed : Bool
  lowConfidence : Bool
  /-- The gates that failed, in the order in which they are checked. -/
  failures : List String
  notes : List String

namespace Verdict

/-! ## Gates -/

def below (x : Float) (n : Number) : Bool := (Extended.ofFloat x).lt n.toExtended

def above (x : Float) (n : Number) : Bool := n.toExtended.lt (.ofFloat x)

def reaches (x : Float) (n : Number) : Bool := n.toExtended.le (.ofFloat x)

def twoPlaces (n : Number) : Except Failure String :=
  (RedFlag.shownAs (fixed 2) n).mapError .accident

def tFailure (required observed : Float) (trials : Int) : List String :=
  if below observed (.float required) then
    [s!"t-stat {fixed 2 observed} < {fixed 2 required} required for {trials} trial(s)"]
  else []

/-- The failure of the deflated Sharpe ratio. It is asked for only above a trigger. -/
def deflatedFailure (s : StatisticsSettings) (m : Metrics) (probability : Float) :
    Except Failure (List String) := do
  let trigger ← (RedFlag.threshold? s.sharpeTrigger).mapError .accident
  if above m.sharpe trigger && below probability s.deflatedPass then
    let shown ← twoPlaces s.deflatedPass
    return [s!"deflated Sharpe {fixed 3 probability} < {shown} " ++
      s!"after selection from {m.variantCount} variant(s)"]
  else return []

/-- The failure of the overfitting estimate. Several variants need one. -/
def overfittingFailure (s : StatisticsSettings) (m : Metrics) (probability : Option Float) :
    Except Failure (List String) := do
  if m.variantCount ≤ 1 then return []
  match probability with
  | none =>
    return [s!"PBO not computed for {m.variantCount} variants; " ++
      "supply variant_returns to check for overfitting"]
  | some p =>
    if reaches p s.overfitPass then
      return [s!"PBO {fixed 3 p} >= {← twoPlaces s.overfitPass}"]
    else return []

def flagFailures (flags : List RedFlag) : List String :=
  (flags.filter (·.severity = .stop)).map fun f => "red flag " ++ f.code

/-! ## Notes -/

/-- The deflated Sharpe ratio of metrics. A note on low confidence shows the least number of
observations, so it has to be one that can be shown. -/
def deflatedOf (s : StatisticsSettings) (m : Metrics) : Except Failure DeflatedSharpe := do
  let d ← Statistics.deflatedSharpe m.returns (.int m.variantCount) s.minObservations
    s.sharpeVariance
  if d.lowConfidence && !s.minObservations.isWritable then throw (.accident .wrongValue)
  return d

def confidenceNote (s : StatisticsSettings) (d : DeflatedSharpe) : List String :=
  if d.lowConfidence then
    [s!"skewness/kurtosis not estimated from {d.observations} returns " ++
      s!"(minimum {s.minObservations.display}); normal distribution assumed"]
  else []

def estimateNotes (s : StatisticsSettings) (m : Metrics) (rows : List (List Float))
    (e : Overfitting.Estimate) : List String :=
  let width := (rows.headD []).length
  (if e.exhaustive then []
   else [s!"PBO estimated from {e.combinations} sampled splits (seed {s.seed.asText})"]) ++
  (if (width : Int) = m.variantCount then []
   else [s!"variant_returns has {width} columns but variant_count is {m.variantCount}"])

def missingNote (m : Metrics) : List String :=
  if 1 < m.variantCount then ["PBO not computed: no per-variant returns supplied"] else []

/-! ## The verdict -/

def planOf (s : Settings) : Overfitting.Plan where
  blocks := s.statistics.blocks
  maxExact := s.statistics.maxExactBlocks
  maxSampled := s.statistics.maxSampled.toValue
  seed := s.statistics.seed
  batchSize := s.statistics.batchSize.toValue
  workers := s.workers.map Number.toValue

/-- The estimate for the returns of variants, if they are there, and the notes on it. -/
def overfittingOf (s : Settings) (cancel : Nat → Bool) (m : Metrics) :
    Except Failure (Option Float × List String) :=
  match m.variantReturns with
  | none => .ok (none, missingNote m)
  | some rows => do
    let e ← Overfitting.estimate (planOf s) cancel (.ofRows rows)
    if !e.exhaustive && !s.statistics.seed.isWritable then throw (.accident .wrongValue)
    return (some e.probability, estimateNotes s.statistics m rows e)

def ofMetrics (s : Settings) (cancel : Nat → Bool) (m : Metrics) : Except Failure Verdict := do
  let st := s.statistics
  if m.returns.length < minReturns then
    throw (.error (.insufficientData s!"got {m.returns.length} returns" "returns"
      (some (toString minReturns))))
  let required ← Statistics.requiredT st.thresholds (.int m.trialCount)
  let observed ← tStatistic m.returns
  let deflated ← deflatedOf st m
  let ofDeflated ← deflatedFailure st m deflated.probability
  let (probability, notes) ← overfittingOf s cancel m
  let ofEstimate ← overfittingFailure st m probability
  let flags ← (RedFlag.ofMetrics st m).mapError .accident
  let failures :=
    tFailure required observed m.trialCount ++ ofDeflated ++ ofEstimate ++ flagFailures flags
  return {
    requiredT := required, observedT := observed, deflatedSharpe := deflated.probability
    overfitting := probability, redFlags := flags, passed := failures.isEmpty
    lowConfidence := deflated.lowConfidence, failures
    notes := confidenceNote st deflated ++ notes }

end Verdict
end BacktestAudit.Statistics
