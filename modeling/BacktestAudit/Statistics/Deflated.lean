import BacktestAudit.Data.Number
import BacktestAudit.Error
import BacktestAudit.Statistics.Normal
import BacktestAudit.Statistics.Sample

/-!
The deflated Sharpe ratio: how probable it is that a strategy which was selected from several is
better than the best of as many that have no skill. Skewness and kurtosis are estimated from enough
returns only; from fewer the values of the normal distribution are taken.
-/
namespace BacktestAudit.Statistics
open BacktestAudit.Data

structure DeflatedSharpe where
  probability : Float
  sharpe : Float
  expectedMax : Float
  skewness : Float
  kurtosis : Float
  observations : Nat
  lowConfidence : Bool

/-! ## The best of many trials -/

def eulerGamma : Float := 0.57721566490153286061

def euler : Float := 2.71828182845904523536

def toDouble (n : Number) : Except Accident Float :=
  match n.toFloat? with
  | some x => .ok x
  | none => .error .outOfRange

def squareRoot (n : Number) : Except Accident Float := do
  let x ← toDouble n
  if x < 0 then throw .wrongValue
  return Float.sqrt x

/-- The Sharpe ratio that the best of some trials without skill is expected to reach. -/
def expectedMaxSharpe (trials variance : Number) : Except Accident Float := do
  if trials.le (.int 1) then return 0
  let n ← toDouble trials
  let z₁ := Normal.quantile (1 - 1 / n)
  let z₂ := Normal.quantile (1 - 1 / (n * euler))
  return (← squareRoot variance) * ((1 - eulerGamma) * z₁ + eulerGamma * z₂)

/-! ## Skewness and kurtosis -/

def epsilon : Float := 2.220446049250313e-16

/-- Whether a variance is no more than what rounding the mean leaves. -/
def isDegenerate (m₂ average : Float) : Bool := m₂ ≤ square (epsilon * average)

/-- The skewness, corrected for the size of the sample. -/
def skewness (xs : List Float) : Float :=
  let n := Float.ofNat xs.length
  let m₂ := centralMoment square xs
  if isDegenerate m₂ (mean xs) then 0 / 0
  else
    let m₃ := centralMoment cube xs
    if 2 < xs.length then Float.sqrt ((n - 1) * n) / (n - 2) * m₃ / Float.pow m₂ 1.5
    else m₃ / Float.pow m₂ 1.5

/-- The kurtosis, corrected for the size of a sample of more than three. -/
def kurtosis (xs : List Float) : Float :=
  let n := Float.ofNat xs.length
  let m₂ := centralMoment square xs
  if isDegenerate m₂ (mean xs) then 0 / 0
  else
    let m₄ := centralMoment fourth xs
    if 3 < xs.length then
      1 / (n - 2) / (n - 3) * ((square n - 1) * m₄ / square m₂ - 3 * square (n - 1)) + 3
    else m₄ / square m₂

/-! ## The probability -/

def leastSpread : Float := 1e-12

def atLeast (low x : Float) : Float := if low > x then low else x

/-- Cuts to a probability; what is no number is none at all. -/
def clampShare (p : Float) : Float :=
  let q := if p > 0 then p else 0
  if q < 1 then q else 1

def minReturns : Nat := 3

/-- The deflated Sharpe ratio of at least three returns. Unless it is given, the variance of the
estimates across trials is the one that they have without any skill. -/
def deflatedSharpe (xs : List Float) (trials minObservations : Number)
    (sharpeVariance : Option Number) : Except Failure DeflatedSharpe := do
  let n := xs.length
  if n < minReturns then
    throw (.error (.insufficientData
      s!"deflated Sharpe needs at least {minReturns} returns, got {n}" "returns"
      (some (toString minReturns))))
  let ratio := sharpe xs
  let lowConfidence := (Number.int n).lt minObservations || isZero (deviation 0 xs)
  let (skew, kurt) := if lowConfidence then (0, 3) else (skewness xs, kurtosis xs)
  let count := Float.ofNat (n - 1)
  let best ← (expectedMaxSharpe trials (sharpeVariance.getD (.float (1 / count)))).mapError
    .accident
  let spread := atLeast leastSpread (1 - skew * ratio + (kurt - 1) / 4 * square ratio)
  let z := (ratio - best) * Float.sqrt count / Float.sqrt spread
  return {
    probability := clampShare (Normal.cdf z), sharpe := ratio, expectedMax := best
    skewness := skew, kurtosis := kurt, observations := n, lowConfidence }

end BacktestAudit.Statistics
