import BacktestAudit.Statistics.Overfitting.Moments

/-!
Degradation: the variant that is best in one half of the blocks falls to the median or below it in
the other half.
-/
namespace BacktestAudit.Statistics.Overfitting

variable {α : Type} [Scalar α]

/-! ## The winner -/

/-- The place and the value of the first greatest number from a place on. -/
def firstGreatestFrom (best : Nat × α) : Nat → List α → Nat × α
  | _, [] => best
  | i, x :: xs => firstGreatestFrom (if Scalar.lt best.2 x then (i, x) else best) (i + 1) xs

def firstGreatest (xs : List α) : Nat :=
  match xs with
  | [] => 0
  | x :: rest => (firstGreatestFrom (0, x) 1 rest).1

/-! ## Ranks -/

/-- Twice the rank of a number among others and itself; equal numbers share the mean of their
ranks. -/
def doubledRank (xs : List α) (x : α) : Nat :=
  2 * (xs.filter (Scalar.lt · x)).length + (xs.filter (Scalar.same · x)).length + 1

/-- Whether the odds of a rank, against one more than the numbers there are, are at most even. -/
def isAtMostEven (doubled count : Nat) : Bool := doubled ≤ 2 * (count + 1) - doubled

/-- Whether the number at a place ranks at the median or below it. -/
def ranksLow (xs : List α) (place : Nat) : Bool :=
  isAtMostEven (doubledRank xs (xs.getD place zero)) xs.length

/-! ## Counting -/

/-- Whether the winner of a half is degraded in the other one; `rows` are the returns in a half. -/
def isDegraded (blocks rows : Nat) (variants : List (BlockSums α)) (half : List Nat) : Bool :=
  let ws : List α := weights blocks half
  let others := otherWeights ws
  ranksLow (variants.map (sharpeOfPart rows others))
    (firstGreatest (variants.map (sharpeOfPart rows ws)))

def degradedCount (blocks rows : Nat) (variants : List (BlockSums α))
    (halves : List (List Nat)) : Nat :=
  halves.countP (isDegraded blocks rows variants)

end BacktestAudit.Statistics.Overfitting
