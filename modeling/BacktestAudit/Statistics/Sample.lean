import BacktestAudit.Statistics.Summation

/-!
Means, variances and ratios of a series of returns.
-/
namespace BacktestAudit.Statistics

variable {α : Type} [Scalar α]

def mean (xs : List α) : α := pairwiseSum xs / Scalar.ofNat xs.length

def square (x : α) : α := x * x

def isZero (x : α) : Bool := Scalar.same x (Scalar.ofNat 0)

def deviations (xs : List α) : List α :=
  let m := mean xs
  xs.map (· - m)

/-- The variance, with the divisor lowered by a number of degrees of freedom. -/
def variance (freedom : Nat) (xs : List α) : α :=
  pairwiseSum ((deviations xs).map square) / Scalar.ofNat (xs.length - freedom)

def deviation (freedom : Nat) (xs : List α) : α := Scalar.sqrt (variance freedom xs)

/-- The ratio of mean and deviation; nothing is gained by returns that never vary. -/
def sharpe (xs : List α) : α :=
  let s := deviation 1 xs
  if isZero s then Scalar.ofNat 0 else mean xs / s

def tRatio (xs : List α) : α :=
  let s := deviation 1 xs
  if isZero s then Scalar.ofNat 0
  else mean xs / (s / Scalar.sqrt (Scalar.ofNat xs.length))

/-! ## Moments -/

def centralMoment (power : α → α) (xs : List α) : α := mean ((deviations xs).map power)

def cube (x : α) : α := square x * x

def fourth (x : α) : α := square (square x)

end BacktestAudit.Statistics
