import BacktestAudit.Finding
import BacktestAudit.Settings.Statistics
import BacktestAudit.Statistics.Metrics

/-!
Results that are too good to be true. Flags are raised one by one and never hide each other.
-/
namespace BacktestAudit.Statistics
open BacktestAudit.Data BacktestAudit.Decimal

structure RedFlag where
  code : String
  rationale : String
  value : Float
  threshold : Number
  severity : Severity

namespace RedFlag

def threshold? (v : Value) : Except Accident Number :=
  match v.number? with
  | some n => .ok n
  | none => .error .wrongKind

def shownAs (format : Float → String) (n : Number) : Except Accident String :=
  match n.toFloat? with
  | some x => .ok (format x)
  | none => .error .outOfRange

def exceeds (x : Float) (n : Number) : Bool := n.toExtended.lt (.ofFloat x)

def staysBelow (x : Float) (n : Number) : Bool := (Extended.ofFloat x).lt n.toExtended

def sharpeFlag (s : StatisticsSettings) (m : Metrics) : Except Accident (Option RedFlag) := do
  let limit ← threshold? s.flagSharpe
  if exceeds m.sharpe limit then
    let shown ← shownAs (fixed 1) limit
    return some {
      code := "SHARPE_TOO_HIGH"
      rationale := s!"Sharpe > {shown} ({fixed 2 m.sharpe}) is rare " ++
        "for a live strategy; check for lookahead bias and costs"
      value := m.sharpe, threshold := limit, severity := .warn }
  else return none

def returnFlag (s : StatisticsSettings) (m : Metrics) : Except Accident (Option RedFlag) := do
  let total := m.compoundedReturn
  let drawdown := Float.abs m.maxDrawdown
  let limit ← threshold? s.flagTotalReturn
  if exceeds total limit then
    if staysBelow drawdown (← threshold? s.flagDrawdown) then
      return some {
        code := "RETURN_DRAWDOWN_IMPLAUSIBLE"
        rationale := s!"total return {percent 1 total} with max drawdown " ++
          s!"{percent 1 drawdown}: returns this high rarely come without drawdowns of 10% or more"
        value := total, threshold := limit, severity := .stop }
  return none

def winRateFlag (s : StatisticsSettings) (m : Metrics) : Except Accident (Option RedFlag) := do
  let limit ← threshold? s.flagWinRate
  if exceeds m.winRate limit then
    let shown ← shownAs (percent 0) limit
    return some {
      code := "WIN_RATE_TOO_HIGH"
      rationale := s!"win rate {percent 0 m.winRate} > {shown} " ++
        "often signals leaked labels or missing costs"
      value := m.winRate, threshold := limit, severity := .warn }
  else return none

/-- The flags of metrics, in the order in which they are checked. -/
def ofMetrics (s : StatisticsSettings) (m : Metrics) : Except Accident (List RedFlag) := do
  let flags ← [sharpeFlag, returnFlag, winRateFlag].mapM fun flag => flag s m
  return flags.filterMap id

end RedFlag
end BacktestAudit.Statistics
