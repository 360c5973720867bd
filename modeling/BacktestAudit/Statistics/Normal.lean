/-!
The standard normal distribution on doubles.
-/
namespace BacktestAudit.Statistics.Normal

def density (x : Float) : Float := Float.exp (-(x * x) / 2) / Float.sqrt (2 * 3.14159265358979323846)

/-- Beyond this exponent the tail is zero. -/
def largestExponent : Float := 709.782712893384

/-- `x + x^3 / 3 + x^5 / (3 * 5) + …`, as far as the terms count. -/
def centralSeries (x : Float) : Nat → Float → Float → Float → Float
  | 0, _, _, sum => sum
  | fuel + 1, odd, term, sum =>
    let next := term * (x * x) / (odd + 2)
    centralSeries x fuel (odd + 2) next (sum + next)

/-- The continued fraction `1 / (x + 1 / (x + 2 / (x + …)))`, from the inside out. -/
def tailFraction (x : Float) : Nat → Float → Float
  | 0, inner => 1 / inner
  | k + 1, inner => tailFraction x k (x + Float.ofNat (k + 1) / inner)

/-- The probability of a value above one that is not negative. -/
def upperTail (x : Float) : Float :=
  if x * x / 2 > largestExponent then 0
  else if x < 2 then 0.5 - density x * centralSeries x 60 1 x x
  else density x * tailFraction x 150 x

def cdf (x : Float) : Float :=
  if x < 0 then upperTail (-x)
  else if 0 ≤ x then 1 - upperTail x
  else x

/-- Halves an interval in which the upper tail falls to a probability. -/
def bisect (tail : Float) : Nat → Float → Float → Float
  | 0, low, high => (low + high) / 2
  | fuel + 1, low, high =>
    let middle := (low + high) / 2
    if upperTail middle > tail then bisect tail fuel middle high else bisect tail fuel low middle

def quantile (p : Float) : Float :=
  if p ≥ 1 then if p > 1 then 0 / 0 else 1 / 0
  else if p ≥ 0.5 then bisect (1 - p) 120 0 40
  else if p > 0 then -bisect p 120 0 40
  else if p == 0 then -1 / 0
  else 0 / 0

end BacktestAudit.Statistics.Normal
