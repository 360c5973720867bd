import BacktestAudit.Error
import BacktestAudit.Settings.Statistics
import BacktestAudit.Statistics.Sample

/-!
The t-statistic that returns have to reach: the more strategies were tried, the higher it lies.
-/
namespace BacktestAudit.Statistics
open BacktestAudit.Data

/-- The threshold of the highest bracket that a number of trials reaches. -/
def requiredT (brackets : Brackets) (trials : Number) : Except Failure Float :=
  if trials.lt (.int 1) then .error (.error (.invalidMetrics "trial_count" "must be at least 1"))
  else
    match (brackets.takeWhile fun b => !trials.lt (.int b.1)).getLast?, brackets with
    | some (_, x), _ => .ok x
    | none, (k, _) :: _ =>
      .error (.error (.invalidMetrics "trial_count" s!"below the smallest bracket {k}"))
    | none, [] => .error (.accident .missingItem)

def tStatistic (xs : List Float) : Except Failure Float :=
  if xs.length < 2 then
    .error (.error (.insufficientData "t-statistic needs at least 2 returns" "returns" (some "2")))
  else .ok (tRatio xs)

end BacktestAudit.Statistics
