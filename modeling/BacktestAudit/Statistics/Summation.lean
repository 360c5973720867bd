/-!
The numbers that statistics are computed with, and their sums. The formulas are stated for any such
numbers; the program runs them on doubles. Long series are added up so that rounding errors stay
small: by eight running sums side by side in blocks of up to 128 numbers, and by halves of what is
longer.
-/
namespace BacktestAudit.Statistics

class Scalar (α : Type) extends Add α, Sub α, Mul α, Div α where
  ofNat : Nat → α
  sqrt : α → α
  lt : α → α → Bool
  same : α → α → Bool

instance : Scalar Float where
  ofNat := Float.ofNat
  sqrt := Float.sqrt
  lt a b := a < b
  same a b := a == b

/-! ## Sums -/

variable {α : Type} [Scalar α]

@[specialize] def plainSum (start : α) (xs : List α) : α := xs.foldl (· + ·) start

/-- The rows of eight that a list falls into, whatever is left over aside. -/
def rowsOfEight (xs : List α) : List (List α) :=
  (List.range (xs.length / 8)).map fun i => (xs.drop (8 * i)).take 8

/-- Eight sums added up in pairs. -/
def joinLanes : List α → α
  | [a, b, c, d, e, f, g, h] => ((a + b) + (c + d)) + ((e + f) + (g + h))
  | xs => plainSum (Scalar.ofNat 0) xs

/-- The sum of a block, by eight lanes and what is left over. -/
def blockSum (xs : List α) : α :=
  let lanes := match rowsOfEight xs with
    | row :: rows => rows.foldl (List.zipWith (· + ·)) row
    | [] => []
  plainSum (joinLanes lanes) (xs.drop (8 * (xs.length / 8)))

def pairwiseSum (xs : List α) : α :=
  if xs.length < 8 then plainSum (Scalar.ofNat 0) xs
  else if xs.length ≤ 128 then blockSum xs
  else
    let half := xs.length / 2 - xs.length / 2 % 8
    pairwiseSum (xs.take half) + pairwiseSum (xs.drop half)
termination_by xs.length
decreasing_by
  all_goals
    simp only [List.length_take, List.length_drop]
    omega

end BacktestAudit.Statistics
