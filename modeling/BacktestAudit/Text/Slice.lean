/-!
Ranges and places of a list by integers: a negative one counts from the back, and a range that
leaves the list is cut to it.
-/
namespace BacktestAudit.Text

/-- The place that an end of a range stands for. -/
def clampIndex (length : Nat) (i : Int) : Nat :=
  if i < 0 then (i + length).toNat else min i.toNat length

def slice (xs : List α) (start stop : Int) : List α :=
  let a := clampIndex xs.length start
  let b := clampIndex xs.length stop
  (xs.drop a).take (b - a)

def sliceFrom (xs : List α) (start : Int) : List α :=
  xs.drop (clampIndex xs.length start)

def item? (xs : List α) (i : Int) : Option α :=
  if 0 ≤ i then xs[i.toNat]?
  else if -i ≤ xs.length then xs[(i + xs.length).toNat]? else none

theorem clamp_index_le (length : Nat) (i : Int) : clampIndex length i ≤ length := by
  unfold clampIndex
  split <;> omega

theorem clamp_index_of_le {length n : Nat} (h : n ≤ length) : clampIndex length (n : Int) = n := by
  unfold clampIndex
  split <;> omega

theorem slice_of_le (xs : List α) {a b : Nat} (ha : a ≤ xs.length) (hb : b ≤ xs.length) :
    slice xs a b = (xs.drop a).take (b - a) := by
  simp only [slice, clamp_index_of_le ha, clamp_index_of_le hb]

end BacktestAudit.Text
