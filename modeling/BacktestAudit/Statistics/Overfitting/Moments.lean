import BacktestAudit.Statistics.Sample

/-!
The Sharpe ratio of a part of the returns, from sums that are taken once for each block. What is
computed for a half is the ratio of its mean to its deviation, without its returns being visited
again.
-/
namespace BacktestAudit.Statistics.Overfitting

variable {α : Type} [Scalar α]

def zero : α := Scalar.ofNat 0

/-- A variant by its blocks: the sums of their returns and of the squares of those. -/
structure BlockSums (α : Type) where
  sums : List α
  squares : List α

def pieces (length : Nat) : Nat → List β → List (List β)
  | 0, _ => []
  | count + 1, xs => xs.take length :: pieces length count (xs.drop length)

/-- The sum from the front on, starting with the first number. -/
def runningSum (xs : List α) : α :=
  match xs with
  | [] => zero
  | x :: rest => plainSum x rest

def BlockSums.ofReturns (blocks : Nat) (returns : List α) : BlockSums α :=
  let parts := pieces (returns.length / blocks) blocks returns
  { sums := parts.map runningSum
    squares := parts.map fun part => runningSum (part.map square) }

/-! ## Halves -/

def weights (blocks : Nat) (half : List Nat) : List α :=
  (List.range blocks).map fun b => Scalar.ofNat (if b ∈ half then 1 else 0)

def otherWeights (ws : List α) : List α := ws.map (Scalar.ofNat 1 - ·)

def weightedSum (ws xs : List α) : α := plainSum zero (List.zipWith (· * ·) ws xs)

/-- The mean of as many returns with a given sum. -/
def meanOfSum (n : Nat) (sum : α) : α := sum / Scalar.ofNat n

def clampNegative (x : α) : α := if Scalar.lt x zero then zero else x

def varianceOfSums (n : Nat) (sum squares : α) : α :=
  clampNegative
    ((squares - Scalar.ofNat n * square (meanOfSum n sum)) / Scalar.ofNat (n - 1))

/-- The ratio of mean and deviation; zero unless the deviation is positive. -/
def sharpeOfSums (n : Nat) (sum squares : α) : α :=
  let deviation := Scalar.sqrt (varianceOfSums n sum squares)
  if Scalar.lt zero deviation then meanOfSum n sum / deviation else zero

def sharpeOfPart (n : Nat) (ws : List α) (v : BlockSums α) : α :=
  sharpeOfSums n (weightedSum ws v.sums) (weightedSum ws v.squares)

end BacktestAudit.Statistics.Overfitting
